/-!
# Error reports

A report carries the messages of one preparation pass, in order; there is always at least one.
-/
namespace SceneAnimation

structure Report where
  messages : List String
  ne_nil : messages ≠ []
deriving DecidableEq

namespace Report

def single (message : String) : Report := ⟨[message], List.cons_ne_nil _ _⟩

/-- A report of `messages`; none if there are no messages. -/
def ofMessages? (messages : List String) : Option Report :=
  if h : messages ≠ [] then some ⟨messages, h⟩ else none

def first (r : Report) : String := r.messages.head r.ne_nil

/-- One message stands for itself; several are counted and listed. -/
def text (r : Report) : String :=
  match r.messages with
  | [message] => message
  | messages => toString messages.length ++ " render errors: " ++ String.intercalate "; " messages

/-- The text of the error that the report raises on the owner's thread. -/
def raisedText (r : Report) : String := "illegal render state: " ++ r.text

@[simp] theorem ofMessages?_nil : ofMessages? [] = none := rfl

theorem ofMessages?_eq_some {messages : List String} {r : Report} :
    ofMessages? messages = some r ↔ r.messages = messages := by
  obtain ⟨ms, hms⟩ := r
  by_cases h : messages = []
  · subst h; simp [ofMessages?, hms]
  · simp only [ofMessages?, ne_eq, h, not_false_eq_true, dite_true, Option.some.injEq, Report.mk.injEq, eq_comm]

end Report

end SceneAnimation
