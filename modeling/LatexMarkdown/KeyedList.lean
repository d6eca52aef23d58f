import LatexMarkdown.Text.Basic

/-!
# Lists with keys

Entries stay in the order in which their keys were first put. Putting a key
again changes its value and not its place.
-/

namespace LatexMarkdown

/-- Values by key, in order of first insertion. -/
abbrev KeyedList (α : Type) := List (Text × α)

namespace KeyedList

/-- The value of a key. -/
def find? {α : Type} : KeyedList α -> Text -> Option α
  | [], _ => none
  | (key, value) :: others, wanted =>
    if key = wanted then some value else find? others wanted

/-- Give a key a value. -/
def put {α : Type} : KeyedList α -> Text -> α -> KeyedList α
  | [], key, value => [(key, value)]
  | (present, old) :: others, key, value =>
    if present = key then (present, value) :: others
    else (present, old) :: put others key value

/-- The key that was put has the value that was put. -/
theorem find?_put_self {α : Type} (entries : KeyedList α) (key : Text) (value : α) :
    find? (put entries key value) key = some value := by
  induction entries with
  | nil => simp [put, find?]
  | cons entry others inductionHypothesis =>
    by_cases same : entry.1 = key <;> simp [put, find?, same, inductionHypothesis]

/-- All other keys keep their values. -/
theorem find?_put_of_ne {α : Type} (entries : KeyedList α) {key wanted : Text}
    (different : key ≠ wanted) (value : α) :
    find? (put entries key value) wanted = find? entries wanted := by
  induction entries with
  | nil => simp [put, find?, different]
  | cons entry others inductionHypothesis =>
    by_cases same : entry.1 = key
    · subst same
      simp [put, find?, different]
    · by_cases found : entry.1 = wanted
      · subst found
        simp [put, find?, same]
      · simp [put, find?, same, found, inductionHypothesis]

end KeyedList

end LatexMarkdown
