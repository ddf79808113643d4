import SceneAnimation.Session.State
/-!
# Pipelines and render threads of a session

A pipeline runs on the owner's thread.  Tasks for a render thread are waited for, so that each command leaves nothing
under way.
-/
namespace SceneAnimation.Session

open Stage

namespace State

def callPipeline (s : State) (name : String) (call : PipelineCall) : Answer × State :=
  s.lookUp s.pipelines name fun p =>
    let drawn (d : Drawn Book) : Answer × State :=
      let s := { s with stage := d.world, pipelines := s.pipelines.set name d.pipeline }
      (.outcome d.outcome, s.sinkAll d.events)
    let changed (after : Pipeline × Stage) : Answer × State :=
      (.nothing, { s with stage := after.2, pipelines := s.pipelines.set name after.1 })
    match call with
    | .draw t => drawn (p.draw tell {} t s.stage)
    | .tick now => drawn (p.tick tell {} now s.stage)
    | .reset => changed (p.reset tell s.stage)
    | .destroy => changed (p.destroy tell s.stage)
    | .trace on => changed ({ p with traced := on }, s.stage)
    | .info =>
      (.pipeline p.driver.frameTime p.driver.frameIndex p.driver.isActive (s.stage.clock p.clock).frameTime, s)

/-- The stage for code that runs on render thread `r`. -/
def stageFor (s : State) (r : RenderThread) : Stage :=
  mapBook s.stage fun b => { b with renderThread := some r.name }

/-- Takes up what a render thread leaves. -/
def takeUp (s : State) (x : Rendered Book) : State :=
  { s with stage := mapBook x.world fun b => { b with renderThread := none } }.sinkAll x.events

/-- Shuts a render thread down. -/
def shutDown (s : State) (r : RenderThread) : RenderThread × State :=
  let x := r.shutDown tell {} (s.stageFor r)
  (x.thread, s.takeUp x)

def callThread (s : State) (name : String) (call : ThreadCall) : Answer × State :=
  s.lookUp s.threads name fun r =>
    let request (t : Task) (answer : Rendered Book → Answer) : Answer × State :=
      match r.call tell {} t (s.stageFor r) with
      | .error refusal => (.refused refusal, s)
      | .ok x => (answer x, { s.takeUp x with threads := s.threads.set name x.thread })
    let queued (_ : Rendered Book) : Answer := .status .queued
    match call with
    | .draw t => request (.draw t) fun x =>
        match x.outcomes.getLast? with
        | some o => .outcome o
        | none => .refused .renderThreadGone
    | .tick now => request (.tick now) queued
    | .setInterval d => request (.setInterval d) queued
    | .reset => request .reset queued
    | .trace on => request (.trace on) queued
    | .fence => request .fence fun _ => .status .fenced
    | .register node =>
      s.lookUp s.stage.client.nodes node fun n =>
        (.nothing, { s with stage := s.stage.register r.pipeline.root n })
    | .destroy =>
      let (r, s) := s.shutDown r
      (.nothing, { s with threads := s.threads.set name r })
    | .drop =>
      let (_, s) := s.shutDown r
      (.nothing, { s with threads := s.threads.erase name })

/-- Starts a render thread, and answers with its root and clock as they are then.  One that had the same name is shut
down after that. -/
def startThread (s : State) (name : String) (root : RootId) (kind : DriverKind) (config : DisplayConfig) :
    Answer × State :=
  let (r, stage) := RenderThread.start root kind config s.stage
  let stage := mapBook stage fun b => { b with clocks := b.clocks.set (name ++ ".clock") r.pipeline.clock }
  let old := s.threads.get? name
  let s := { s with stage, threads := s.threads.set name r }
  let answer : Answer := .thread (stage.root root).pending.length (stage.clock r.pipeline.clock).interval
  match old with
  | some old => (answer, (s.shutDown old).2)
  | none => (answer, s)

end State

end SceneAnimation.Session
