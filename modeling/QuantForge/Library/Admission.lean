import Mathlib.Data.Finset.Basic
import Mathlib.Data.List.Count

/-! Exactly-once admission. Ids are admitted through a set that is emptied between
epochs, and whoever was admitted owes each later stage of its id once. `Move` is what
one step may do to the ledger; `Sound`, `Covers` and `Disjoint` are what it keeps. -/
namespace QuantForge.Library.Admission

variable {Stage Id : Type*} [BEq Stage] [BEq Id] [DecidableEq Id]

/-- `tried` lists the completed attempts with their answers, `done` the stages. -/
structure Ledger (Stage Id : Type*) where
  processed : Finset Id
  epoch : Nat
  tried : List (Nat × Id × Bool)
  done : List (Stage × Nat × Id)

/-- Each id is admitted at most once in an epoch, and exactly once if it was tried. -/
structure Ledger.Sound (g : Ledger Stage Id) : Prop where
  admitted_once : ∀ epoch id, g.tried.count (epoch, id, true) ≤ 1
  done_once : ∀ item, g.done.count item ≤ 1
  processed : ∀ id, id ∈ g.processed ↔ (g.epoch, id, true) ∈ g.tried
  past : ∀ epoch id, (epoch, id, true) ∈ g.tried → epoch ≤ g.epoch
  answered : ∀ epoch id isNew, (epoch, id, isNew) ∈ g.tried → (epoch, id, true) ∈ g.tried
  rooted : ∀ stage epoch id, (stage, epoch, id) ∈ g.done → (epoch, id, true) ∈ g.tried

def Ledger.Covers (g : Ledger Stage Id) (owed : List (Stage × Nat × Id)) : Prop :=
  ∀ item ∈ owed, item ∉ g.done ∧ (item.2.1, item.2.2, true) ∈ g.tried

/-- One step of a thread that owes `owed` before and `owed'` after. -/
inductive Move (g : Ledger Stage Id) (owed owed' : List (Stage × Nat × Id)) :
    Ledger Stage Id → Prop where
  | keep (hsub : owed' ⊆ owed) : Move g owed owed' g
  | refuse (id : Id) (hmem : id ∈ g.processed) (howed : owed' = []) :
      Move g owed owed' { g with tried := (g.epoch, id, false) :: g.tried }
  | accept (id : Id) (hnew : id ∉ g.processed) (howed : ∀ item ∈ owed', item.2 = (g.epoch, id)) :
      Move g owed owed'
        { g with
          processed := insert id g.processed
          tried := (g.epoch, id, true) :: g.tried }
  | perform (item : Stage × Nat × Id) (howed : owed = item :: owed') (hnew : item ∉ owed') :
      Move g owed owed' { g with done := item :: g.done }
  | reset (howed : owed' = []) :
      Move g owed owed' { g with processed := ∅, epoch := g.epoch + 1 }

variable {g g' : Ledger Stage Id} {owed owed' other : List (Stage × Nat × Id)}

omit [DecidableEq Id] in
theorem notMem_tried_of_new (h : g.Sound) {id : Id} (hnew : id ∉ g.processed) (isNew : Bool) :
    (g.epoch, id, isNew) ∉ g.tried := fun hmem =>
  hnew ((h.processed id).mpr (h.answered _ _ _ hmem))

theorem sound_move [LawfulBEq Stage] [LawfulBEq Id] (hmove : Move g owed owed' g')
    (h : g.Sound) (howed : g.Covers owed) : g'.Sound := by
  cases hmove with
  | keep => exact h
  | refuse id hmem =>
      have hadmitted := (h.processed id).mp hmem
      refine ⟨fun epoch id' => ?_, h.done_once, fun id' => ?_, fun epoch id' hin => ?_,
        fun epoch id' isNew hin => ?_, fun stage epoch id' hin => ?_⟩
      · rw [List.count_cons_of_ne (by simp)]
        exact h.admitted_once epoch id'
      · simpa using h.processed id'
      · exact h.past epoch id' (by simpa using hin)
      · obtain heq | hin := List.mem_cons.mp hin
        · obtain ⟨rfl, rfl, rfl⟩ : epoch = g.epoch ∧ id' = id ∧ isNew = false := by
            simpa using heq
          exact List.mem_cons_of_mem _ hadmitted
        · exact List.mem_cons_of_mem _ (h.answered _ _ _ hin)
      · exact List.mem_cons_of_mem _ (h.rooted _ _ _ hin)
  | accept id hnew =>
      have hfresh := notMem_tried_of_new h hnew
      refine ⟨fun epoch id' => ?_, h.done_once, fun id' => ?_, fun epoch id' hin => ?_,
        fun epoch id' isNew hin => ?_, fun stage epoch id' hin => ?_⟩
      · by_cases heq : (epoch, id', true) = (g.epoch, id, true)
        · rw [heq, List.count_cons_self, List.count_eq_zero.mpr (hfresh true)]
        · rw [List.count_cons_of_ne (Ne.symm heq)]
          exact h.admitted_once epoch id'
      · rw [Finset.mem_insert, List.mem_cons, h.processed id']
        simp
      · obtain heq | hin := List.mem_cons.mp hin
        · exact (Prod.mk.inj heq).1.le
        · exact h.past epoch id' hin
      · obtain heq | hin := List.mem_cons.mp hin
        · obtain ⟨rfl, rfl, rfl⟩ : epoch = g.epoch ∧ id' = id ∧ isNew = true := by
            simpa using heq
          exact List.mem_cons_self
        · exact List.mem_cons_of_mem _ (h.answered _ _ _ hin)
      · exact List.mem_cons_of_mem _ (h.rooted _ _ _ hin)
  | perform item heq hnew =>
      obtain ⟨hnotdone, hadmitted⟩ := howed item (heq ▸ List.mem_cons_self)
      refine ⟨h.admitted_once, fun item' => ?_, h.processed, h.past, h.answered,
        fun stage epoch id hin => ?_⟩
      · by_cases hsame : item' = item
        · rw [hsame, List.count_cons_self, List.count_eq_zero.mpr hnotdone]
        · rw [List.count_cons_of_ne (Ne.symm hsame)]
          exact h.done_once item'
      · obtain hsame | hin := List.mem_cons.mp hin
        · subst hsame
          exact hadmitted
        · exact h.rooted _ _ _ hin
  | reset =>
      refine ⟨h.admitted_once, h.done_once, fun id => ?_, fun epoch id hin => ?_, h.answered,
        h.rooted⟩
      · have hpast := h.past (g.epoch + 1) id
        simp only [Finset.notMem_empty, false_iff]
        exact fun hin => absurd (hpast hin) (by omega)
      · exact (h.past epoch id hin).trans (Nat.le_succ _)

theorem covers_move (hmove : Move g owed owed' g') (h : g.Sound) (howed : g.Covers owed) :
    g'.Covers owed' := by
  cases hmove with
  | keep hsub => exact fun item hin => howed item (hsub hin)
  | refuse id hmem hnil => simp [Ledger.Covers, hnil]
  | accept id hnew heq =>
      intro item hin
      obtain ⟨stage, epoch, id'⟩ := item
      obtain ⟨rfl, rfl⟩ := Prod.mk.inj (heq _ hin)
      refine ⟨fun hdone => ?_, List.mem_cons_self⟩
      exact notMem_tried_of_new h hnew true (h.rooted _ _ _ hdone)
  | perform item heq hnew =>
      intro item' hin
      obtain ⟨hnotdone, hadmitted⟩ := howed item' (heq ▸ List.mem_cons_of_mem _ hin)
      refine ⟨fun hdone => ?_, hadmitted⟩
      obtain rfl | hdone := List.mem_cons.mp hdone
      · exact hnew hin
      · exact hnotdone hdone
  | reset hnil => simp [Ledger.Covers, hnil]

theorem bystander_move (hmove : Move g owed owed' g') (h : g.Sound) (hother : g.Covers other)
    (hdisjoint : owed.Disjoint other) : g'.Covers other ∧ owed'.Disjoint other := by
  cases hmove with
  | keep hsub => exact ⟨hother, fun item hin => hdisjoint (hsub hin)⟩
  | refuse id hmem hnil =>
      refine ⟨fun item hin => ?_, by simp [hnil]⟩
      exact ⟨(hother item hin).1, List.mem_cons_of_mem _ (hother item hin).2⟩
  | accept id hnew heq =>
      refine ⟨fun item hin => ?_, fun item hin hin' => ?_⟩
      · exact ⟨(hother item hin).1, List.mem_cons_of_mem _ (hother item hin).2⟩
      · have hadmitted := (hother item hin').2
        obtain ⟨stage, epoch, id'⟩ := item
        obtain ⟨rfl, rfl⟩ := Prod.mk.inj (heq _ hin)
        exact notMem_tried_of_new h hnew true hadmitted
  | perform item heq hnew =>
      subst heq
      refine ⟨fun item' hin => ?_, fun item' hin => hdisjoint (List.mem_cons_of_mem _ hin)⟩
      obtain ⟨hnotdone, hadmitted⟩ := hother item' hin
      refine ⟨fun hdone => ?_, hadmitted⟩
      obtain rfl | hdone := List.mem_cons.mp hdone
      · exact hdisjoint List.mem_cons_self hin
      · exact hnotdone hdone
  | reset hnil => exact ⟨hother, by simp [hnil]⟩

omit [DecidableEq Id] in
theorem Ledger.Sound.count_eq_one [LawfulBEq Id] (h : g.Sound) {epoch : Nat} {id : Id}
    {isNew : Bool} (hin : (epoch, id, isNew) ∈ g.tried) :
    g.tried.count (epoch, id, true) = 1 :=
  le_antisymm (h.admitted_once epoch id)
    (List.count_pos_iff.mpr (h.answered epoch id isNew hin))

end QuantForge.Library.Admission
