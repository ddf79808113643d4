import SceneAnimation.Session.Run
import SceneAnimation.Affine
import SceneAnimation.Trace.Transcript
import SceneAnimation.Trace.Timeline
import SceneAnimation.Proofs.Threads.Calls
import SceneAnimation.Proofs.Threads.Jobs
import SceneAnimation.Proofs.Threads.Steps
import SceneAnimation.Proofs.Running
import SceneAnimation.Proofs.Threads.Numbering
import SceneAnimation.Proofs.Threads.Known
import SceneAnimation.Proofs.Tracking
import SceneAnimation.Proofs.Detection
import SceneAnimation.Proofs.Threads.Mail
import SceneAnimation.Proofs.Delivery
import SceneAnimation.Proofs.Destruction
import SceneAnimation.Proofs.Threads.Order
import SceneAnimation.Proofs.Threads.Stages
import SceneAnimation.Proofs.Activity
import SceneAnimation.Proofs.Boundary
import SceneAnimation.Proofs.Detachment
import SceneAnimation.Proofs.Threads.Whole
import SceneAnimation.Proofs.Registration
import SceneAnimation.Proofs.Threads.Reports
import SceneAnimation.Proofs.Errors
import SceneAnimation.Proofs.Deferral
import SceneAnimation.Proofs.Trees
import SceneAnimation.Proofs.Threads.Works
import SceneAnimation.Proofs.Ledgers
import SceneAnimation.Proofs.Passes
import SceneAnimation.Proofs.Frames
import SceneAnimation.Proofs.Apart
import SceneAnimation.Proofs.Surveys
import SceneAnimation.Proofs.Agreement
import SceneAnimation.Proofs.Isolation
import SceneAnimation.Proofs.Nesting
import SceneAnimation.Proofs.Proxy
import SceneAnimation.Proofs.Refinement
import SceneAnimation.Proofs.Recordings
import SceneAnimation.Proofs.Spellings
import SceneAnimation.Proofs.Operations
import SceneAnimation.Proofs.Timing
import SceneAnimation.Proofs.Decimals
import SceneAnimation.Proofs.Doubles
import SceneAnimation.Proofs.Numbers
import SceneAnimation.Proofs.Quotients
import SceneAnimation.Proofs.Json
import SceneAnimation.Proofs.Objects
import SceneAnimation.Proofs.Timelines
import SceneAnimation.Proofs.Tracing
import SceneAnimation.Proofs.Intervals
import SceneAnimation.Proofs.Occurrences
import SceneAnimation.Proofs.Teardown
import SceneAnimation.Proofs.Fractions
import SceneAnimation.Proofs.Skipping
import SceneAnimation.Proofs.Polls
import SceneAnimation.Proofs.Completion
import SceneAnimation.Proofs.Standstill
import SceneAnimation.Proofs.Underway
import SceneAnimation.Proofs.Repetition
import SceneAnimation.Proofs.Resumption
import SceneAnimation.Proofs.Departure
