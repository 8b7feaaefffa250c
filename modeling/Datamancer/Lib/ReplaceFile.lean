import Mathlib.Logic.Function.Basic

/-!
# Datamancer.Lib.ReplaceFile

A file that is replaced by renaming another over it. The new contents go to a second name of
the same directory; a writer opens that name, which empties it, writes piece by piece at an
offset of its own, and renames. All writers use one such name: a second writer that opens it
while the first is at work shares what the first has open.

A writer that is alone has what it writes to itself, and the file changes at its rename only,
from one complete text to another (`Alone.step`).
-/

namespace ReplaceFile

variable {α : Type*}

/-- The directory: what the two names stand for, and the contents behind. -/
structure Disk (α : Type*) where
  inode : Nat → List α
  next : Nat
  target : Nat
  tmp : Option Nat

/-- Where a writer is; `written` and `rest` make up the text it is given. -/
inductive Writer (α : Type*)
  | opening
  | writing (inode : Nat) (written rest : List α)
  /-- Something has failed and the second name is to be removed. -/
  | failing
  | finished (ok : Bool)

inductive WriterAction
  | openTmp
  /-- The next so many elements are written. -/
  | write (n : Nat)
  | rename
  | fail
  /-- The second name is removed, if that does not fail itself. -/
  | remove (ok : Bool)
  deriving DecidableEq

namespace Disk

/-- What a reader of the file finds. -/
def content (d : Disk α) : List α := d.inode d.target

def setInode (d : Disk α) (i : Nat) (l : List α) : Disk α :=
  { d with inode := Function.update d.inode i l }

def openTmp (d : Disk α) : Disk α × Nat :=
  match d.tmp with
  | some i => (d.setInode i [], i)
  | none => ({ d.setInode d.next [] with next := d.next + 1, tmp := some d.next }, d.next)

end Disk

/-- Write at an offset; what was there is overwritten, and a hole is filled. -/
def overwrite (hole : α) (l : List α) (offset : Nat) (piece : List α) : List α :=
  l.take offset ++ List.replicate (offset - l.length) hole ++ piece
    ++ l.drop (offset + piece.length)

def step (hole : α) (text : List α) (d : Disk α) : Writer α → WriterAction →
    Option (Disk α × Writer α)
  | .opening, .openTmp => some (d.openTmp.1, .writing d.openTmp.2 [] text)
  | .writing i written rest, .write n =>
      if 0 < n ∧ n ≤ rest.length then
        some (d.setInode i (overwrite hole (d.inode i) written.length (rest.take n)),
          .writing i (written ++ rest.take n) (rest.drop n))
      else none
  | .writing _ _ [], .rename =>
      match d.tmp with
      | some j => some ({ d with target := j, tmp := none }, .finished true)
      | none => some (d, .failing)
  | .opening, .fail | .writing _ _ _, .fail => some (d, .failing)
  | .failing, .remove ok => some (if ok then { d with tmp := none } else d, .finished false)
  | _, _ => none

/-! ### One writer alone -/

/-- The names stand for different files. -/
structure Disk.Wf (d : Disk α) : Prop where
  target_lt : d.target < d.next
  tmp_lt : ∀ i, d.tmp = some i → i < d.next ∧ i ≠ d.target

/-- What the writer has open is the second name's, and holds what it has written. -/
structure Alone (text : List α) (d : Disk α) (w : Writer α) : Prop where
  wf : d.Wf
  own : ∀ i written rest, w = .writing i written rest →
    d.tmp = some i ∧ d.inode i = written ∧ written ++ rest = text

theorem overwrite_end (hole : α) (l piece : List α) :
    overwrite hole l l.length piece = l ++ piece := by
  simp [overwrite]

variable {hole : α} {text : List α} {d d' : Disk α} {w w' : Writer α} {act : WriterAction}

theorem Alone.of_not_writing (h : d.Wf) (hw : ∀ i written rest, w ≠ .writing i written rest) :
    Alone text d w := ⟨h, fun i written rest he => absurd he (hw i written rest)⟩

theorem openTmp_spec (h : d.Wf) :
    d.openTmp.1.Wf ∧ d.openTmp.1.tmp = some d.openTmp.2 ∧ d.openTmp.1.inode d.openTmp.2 = []
      ∧ d.openTmp.1.content = d.content := by
  cases htmp : d.tmp with
  | some i =>
      have hi := h.tmp_lt i htmp
      simp only [Disk.openTmp, htmp]
      refine ⟨⟨h.target_lt, h.tmp_lt⟩, htmp, by simp [Disk.setInode], ?_⟩
      simp [Disk.content, Disk.setInode, Function.update_of_ne hi.2.symm]
  | none =>
      simp only [Disk.openTmp, htmp]
      refine ⟨⟨Nat.lt_succ_of_lt h.target_lt, fun i hi => ?_⟩, by simp, by simp [Disk.setInode], ?_⟩
      · cases hi
        exact ⟨Nat.lt_succ_self _, (Nat.ne_of_lt h.target_lt).symm⟩
      · simp [Disk.content, Disk.setInode, Function.update_of_ne (Nat.ne_of_lt h.target_lt)]

theorem Disk.Wf.setInode (h : d.Wf) (i : Nat) (l : List α) : (d.setInode i l).Wf :=
  ⟨h.target_lt, h.tmp_lt⟩

theorem content_setInode {i : Nat} (h : i ≠ d.target) (l : List α) :
    (d.setInode i l).content = d.content := by
  simp [Disk.content, Disk.setInode, Function.update_of_ne h.symm]

/-- A writer alone keeps the file as it is until its rename, which makes it the whole text. -/
theorem Alone.step (h : Alone text d w) (hstep : step hole text d w act = some (d', w')) :
    Alone text d' w'
      ∧ (d'.content = d.content ∧ w' ≠ .finished true
        ∨ d'.content = text ∧ w' = .finished true) := by
  rw [ReplaceFile.step.eq_def] at hstep
  split at hstep
  · cases hstep
    obtain ⟨hwf, htmp, hempty, hcontent⟩ := openTmp_spec h.wf
    refine ⟨⟨hwf, fun i written rest he => ?_⟩, .inl ⟨hcontent, by simp⟩⟩
    cases he
    exact ⟨htmp, hempty, rfl⟩
  · rename_i i written rest n
    -- a write goes to the temporary file only
    obtain ⟨hn, hstep⟩ := Option.ite_none_right_eq_some.mp hstep
    obtain ⟨htmp, hinode, htext⟩ := h.own i written rest rfl
    cases hstep
    refine ⟨⟨h.wf.setInode _ _, fun j written' rest' he => ?_⟩,
      .inl ⟨content_setInode (h.wf.tmp_lt i htmp).2 _, by simp⟩⟩
    cases he
    refine ⟨htmp, ?_, by rw [List.append_assoc, List.take_append_drop, htext]⟩
    simp [Disk.setInode, hinode, overwrite_end]
  · rename_i i written
    obtain ⟨htmp, hinode, htext⟩ := h.own i written [] rfl
    rw [htmp] at hstep
    cases hstep
    -- the rename: the target is now the file that holds all of the text
    have hi := h.wf.tmp_lt i htmp
    refine ⟨.of_not_writing ⟨hi.1, fun j hj => by cases hj⟩ (by simp), .inr ⟨?_, rfl⟩⟩
    rw [← htext, List.append_nil]
    exact hinode
  · cases hstep
    exact ⟨.of_not_writing h.wf (by simp), .inl ⟨rfl, by simp⟩⟩
  · cases hstep
    exact ⟨.of_not_writing h.wf (by simp), .inl ⟨rfl, by simp⟩⟩
  · rename_i ok
    cases hstep
    refine ⟨.of_not_writing ?_ (by simp), .inl ⟨?_, by simp⟩⟩
    · cases ok with
      | true => exact ⟨h.wf.target_lt, fun j hj => by cases hj⟩
      | false => exact h.wf
    · cases ok <;> rfl
  · cases hstep

end ReplaceFile
