import Mathlib.Data.List.Perm.Basic

/-! Lists from which some elements are given away while the others stay, in their order. -/
namespace RabbitClient.Custody

variable {α : Type} {before after rest given given' : List α}

/-- From `before`, `given` has been given away and `after` has stayed. -/
structure Gives (before given after : List α) : Prop where
  sub : List.Sublist after before
  perm : List.Perm (given ++ after) before

theorem gives_nothing (before : List α) : Gives before [] before :=
  ⟨List.Sublist.refl _, List.Perm.refl _⟩

theorem gives_middle (a given b : List α) : Gives (a ++ given ++ b) given (a ++ b) := by
  constructor
  · rw [List.append_assoc]
    exact List.Sublist.append_left (List.sublist_append_right given b) a
  · rw [← List.append_assoc]
    exact List.perm_append_comm.append_right b

theorem Gives.trans (h : Gives before given after) (h' : Gives after given' rest) :
    Gives before (given ++ given') rest := by
  refine ⟨h'.sub.trans h.sub, ?_⟩
  rw [List.append_assoc]
  exact (h'.perm.append_left given).trans h.perm

theorem Gives.congr {given' : List α} (hsame : given.Perm given') (h : Gives before given after) :
    Gives before given' after :=
  ⟨h.sub, (hsame.symm.append_right after).trans h.perm⟩

end RabbitClient.Custody
