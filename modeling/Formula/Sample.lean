import Formula.Builtin
import Formula.Sample.Counter
import Formula.Sample.Scene
import Formula.Sample.Settings

/-!
Registries of the sample host.
-/

namespace Formula.Sample

def memory : Memory host := .empty Settings.initialLevel

def registry : Registry host :=
  Registry.registerAll
    (Registry.builtins.registerEnum "Mode" ["Idle", "Run"]
      |>.registerEnum "Axis" ["X", "Y", "Z"]
      |>.registerEnum "Void" [])
    (echo :: ([Point.typeDef, Rect.typeDef, Scene.typeDef, Counter.typeDef, Settings.typeDef,
      Probe.typeDef].map (·.toHostType)))

/-- Enumerations in the place of builtin types. -/
def shadowing : Registry host :=
  Registry.builtins.registerEnum "List" ["One", "Two"] |>.registerEnum "Math" ["PI", "Tau"]

end Formula.Sample
