import SceneAnimation.Time
/-!
# Display configurations
-/
namespace SceneAnimation

/-- What a render thread is started with. -/
structure DisplayConfig where
  /-- The refresh interval of the display. -/
  interval : Span
  threadName : String
deriving DecidableEq

namespace DisplayConfig

/-- A display with sixty frames a second; the interval is cut to whole nanoseconds. -/
def hz60 : DisplayConfig := ⟨⟨16666666⟩, "RenderThread"⟩

/-- A display with a hundred and twenty frames a second. -/
def hz120 : DisplayConfig := ⟨⟨8333333⟩, "RenderThread"⟩

instance : Inhabited DisplayConfig := ⟨hz60⟩

end DisplayConfig

end SceneAnimation
