/-!
Computations that put questions to an outside authority. An inquiry holds its answer and the
questions it took, in the order they were asked. Sequencing runs the second
computation only on the first one's answer, so the questions also show where a
decision stopped.
-/

namespace Monomorph

structure Inquiry (Question α : Type) where
  answer : α
  asked : List Question

namespace Inquiry

variable {Question α β : Type}

/-- An answer that takes no question. -/
def known (answer : α) : Inquiry Question α := ⟨answer, []⟩

/-- The authority's answer to one question. -/
def ask (authority : Question → α) (question : Question) : Inquiry Question α :=
  ⟨authority question, [question]⟩

def andThen (first : Inquiry Question α) (next : α → Inquiry Question β) :
    Inquiry Question β :=
  let second := next first.answer
  ⟨second.answer, first.asked ++ second.asked⟩

/-- Both hold. The second is looked into only if the first holds. -/
def both (first : Inquiry Question Bool) (second : Unit → Inquiry Question Bool) :
    Inquiry Question Bool :=
  first.andThen fun holds => if holds then second () else known false

/-- One of the two holds. The second is looked into only if the first does not. -/
def either (first : Inquiry Question Bool) (second : Unit → Inquiry Question Bool) :
    Inquiry Question Bool :=
  first.andThen fun holds => if holds then known true else second ()

/-- The first finding along a list. Nothing behind it is looked into. -/
def firstFinding (list : List α) (look : α → Inquiry Question (Option β)) :
    Inquiry Question (Option β) :=
  match list with
  | [] => known none
  | item :: rest =>
      (look item).andThen fun
        | some finding => known (some finding)
        | none => firstFinding rest look

@[simp] theorem answer_known (answer : α) :
    (known answer : Inquiry Question α).answer = answer := rfl

@[simp] theorem asked_known (answer : α) :
    (known answer : Inquiry Question α).asked = [] := rfl

@[simp] theorem answer_ask (authority : Question → α) (question : Question) :
    (ask authority question).answer = authority question := rfl

@[simp] theorem asked_ask (authority : Question → α) (question : Question) :
    (ask authority question).asked = [question] := rfl

@[simp] theorem answer_andThen (first : Inquiry Question α) (next : α → Inquiry Question β) :
    (first.andThen next).answer = (next first.answer).answer := rfl

@[simp] theorem asked_andThen (first : Inquiry Question α) (next : α → Inquiry Question β) :
    (first.andThen next).asked = first.asked ++ (next first.answer).asked := rfl

@[simp] theorem answer_both (first : Inquiry Question Bool)
    (second : Unit → Inquiry Question Bool) :
    (first.both second).answer = (first.answer && (second ()).answer) := by
  cases h : first.answer <;> simp [both, h]

@[simp] theorem answer_either (first : Inquiry Question Bool)
    (second : Unit → Inquiry Question Bool) :
    (first.either second).answer = (first.answer || (second ()).answer) := by
  cases h : first.answer <;> simp [either, h]

@[simp] theorem answer_firstFinding (list : List α) (look : α → Inquiry Question (Option β)) :
    (firstFinding list look).answer = list.findSome? fun item => (look item).answer := by
  induction list with
  | nil => rfl
  | cons item rest ih =>
    rw [firstFinding, answer_andThen, List.findSome?_cons]
    cases (look item).answer with
    | some finding => rfl
    | none => exact ih

end Inquiry

end Monomorph
