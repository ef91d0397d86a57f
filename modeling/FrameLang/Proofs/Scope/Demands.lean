import FrameLang.Proofs.Scope.Bearers

/-!
# Several demands on one record

A record that is not bound to a definition comes to know what all demands on it agree on.
If they agree on something, it does not matter in which order they are made
(`NameRecord.afterDemands_perm`), nor how often (`NameRecord.afterDemands_of_met`); if they
do not, the first ones are kept and the others refused.  Whether a value is needed unboxed does
not depend on the order in either case (`NameRecord.mustUnbox_afterDemands`).

What the demands agree on is given by a *floor*: an origin that has met all of them
and knows no less than the record.
-/

namespace FrameLang

/-! ## One demand after another -/

namespace Kinds

variable {before left demanded : Kinds}

/-- Evidence that is left something of what is known has something in common with it. -/
theorem Narrows.meets (h : before.Narrows left) (hsubset : left ⊆ demanded) (hne : left ≠ ∅) :
    before.meets demanded = true := by
  obtain ⟨kind, hkind⟩ := ne_empty_iff.mp hne
  exact meets_iff.mpr ⟨kind, subset_iff.mp h.subset kind hkind, subset_iff.mp hsubset kind hkind⟩

theorem Narrows.narrow (h : before.Narrows left) (hsubset : left ⊆ demanded) (hne : left ≠ ∅) :
    (before.narrow demanded).Narrows left := by
  refine ⟨?_, fun _ => hne⟩
  rw [Kinds.narrow, if_pos (h.meets hsubset hne), subset_iff]
  intro kind hkind
  exact mem_inter.mpr ⟨subset_iff.mp h.subset kind hkind, subset_iff.mp hsubset kind hkind⟩

theorem Narrows.narrow_comm (h : before.Narrows left) {first second : Kinds}
    (hfirst : left ⊆ first) (hsecond : left ⊆ second) (hne : left ≠ ∅) :
    (before.narrow first).narrow second = (before.narrow second).narrow first := by
  have hboth : ∀ {evidence other : Kinds}, left ⊆ evidence → left ⊆ other →
      (before.narrow evidence).narrow other = before ∩ evidence ∩ other := by
    intro evidence other hevidence hother
    have hrest := (h.narrow hevidence hne).meets hother hne
    rw [Kinds.narrow, if_pos hrest, Kinds.narrow, if_pos (h.meets hevidence hne)]
  rw [hboth hfirst hsecond, hboth hsecond hfirst]
  ext kind
  simp only [mem_inter]
  exact and_right_comm

end Kinds

namespace Origin

variable {origin floor : Origin} {demanded : Kinds}

/-- What agrees with a demand still agrees with some of what is known when the demand is
made, so the demand is not refused and leaves all that agrees with it. -/
theorem narrows_of_met (h : origin.Narrows floor) (hfree : origin.definition? = none)
    (hmet : floor.Met demanded) (hknown : floor.known ≠ ∅) :
    (origin.narrow demanded).Narrows floor ∧
      ∀ known, origin.answer demanded ≠ .refused known := by
  have hagrees : ∀ {kinds left known : Kinds}, kinds.Narrows left → left ⊆ demanded → left ≠ ∅ →
      Answer.of kinds demanded ≠ .refused known := by
    intro kinds left known hleft hsubset hne
    rw [Answer.of, if_pos (hleft.meets hsubset hne)]
    simp
  cases h with
  | free hleft => exact ⟨.free (hleft.narrow hmet hknown), fun _ => hagrees hleft hmet hknown⟩
  | replaced hleft =>
      exact ⟨.replaced (hleft.narrow hmet hknown), fun _ => hagrees hleft hmet hknown⟩
  | masked hleft => exact ⟨.masked (hleft.narrow hmet hknown), fun _ => hagrees hleft hmet hknown⟩
  | bound => cases hfree
  | delegated => exact ⟨.delegated, by simp [answer]⟩
  | junk => exact ⟨.junk, by simp [answer]⟩

/-- Two demands may be made in either order, as long as something agrees with both. -/
theorem narrow_comm (h : origin.Narrows floor) (hfree : origin.definition? = none)
    {first second : Kinds} (hfirst : floor.Met first) (hsecond : floor.Met second)
    (hknown : floor.known ≠ ∅) :
    (origin.narrow first).narrow second = (origin.narrow second).narrow first := by
  cases h with
  | free hleft => exact congrArg free (hleft.narrow_comm hfirst hsecond hknown)
  | replaced hleft => exact congrArg replaced (hleft.narrow_comm hfirst hsecond hknown)
  | masked hleft => exact congrArg (masked _) (hleft.narrow_comm hfirst hsecond hknown)
  | bound => cases hfree
  | delegated => rfl
  | junk => rfl

end Origin

/-! ## Lists of demands -/

namespace NameRecord

variable {record : NameRecord}

theorem isJunk_of_definition? {node : NodeId} (h : record.origin.definition? = some node) :
    record.isJunk = false := by
  obtain ⟨kinds, horigin⟩ := Origin.definition?_eq_some_iff.mp h
  rw [isJunk_eq_false, horigin]
  simp

theorem afterDemand_of_live (h : record.isJunk = false) (demanded : Kinds) (unbox : Bool) :
    record.afterDemand demanded unbox =
      { record with
        origin := record.origin.narrow demanded
        mustUnbox := record.mustUnbox || unbox } :=
  if_neg (by simp [h])

theorem afterDemand_comm (record : NameRecord) {first second : Kinds}
    (h : (record.origin.narrow first).narrow second = (record.origin.narrow second).narrow first)
    (unbox unbox' : Bool) :
    (record.afterDemand second unbox).afterDemand first unbox' =
      (record.afterDemand first unbox').afterDemand second unbox := by
  cases hjunk : record.isJunk with
  | true =>
      have hnothing : ∀ (demanded : Kinds) (unbox : Bool),
          record.afterDemand demanded unbox = record := fun _ _ => if_pos hjunk
      simp only [hnothing]
  | false =>
      have hlive := fun demanded unbox =>
        (record.grows_afterDemand demanded unbox).isJunk.trans hjunk
      rw [afterDemand_of_live (hlive second unbox), afterDemand_of_live (hlive first unbox'),
        afterDemand_of_live hjunk, afterDemand_of_live hjunk, h, Bool.or_right_comm]

/-- A demand that something agrees with leaves all that agrees with it. -/
theorem narrows_afterDemand {floor : Origin} (h : record.origin.Narrows floor)
    (hfree : record.origin.definition? = none) (hknown : floor.known ≠ ∅) {demanded : Kinds}
    (hmet : floor.Met demanded) (unbox : Bool) :
    (record.afterDemand demanded unbox).origin.Narrows floor ∧
      (record.afterDemand demanded unbox).origin.definition? = none := by
  rw [origin_afterDemand, Origin.definition?_narrow]
  exact ⟨(Origin.narrows_of_met h hfree hmet hknown).1, hfree⟩

/-- The record after several demands, each with whether it needs the value unboxed. -/
def afterDemands (record : NameRecord) (demands : List (Kinds × Bool)) : NameRecord :=
  demands.foldl (fun record demand => record.afterDemand demand.1 demand.2) record

theorem afterDemands_append (record : NameRecord) (first second : List (Kinds × Bool)) :
    record.afterDemands (first ++ second) = (record.afterDemands first).afterDemands second :=
  List.foldl_append

theorem grows_afterDemands (record : NameRecord) (demands : List (Kinds × Bool)) :
    record.Grows (record.afterDemands demands) := by
  induction demands generalizing record with
  | nil => exact .refl record
  | cons demand rest ih => exact (record.grows_afterDemand demand.1 demand.2).trans (ih _)

theorem mustUnbox_afterDemands (record : NameRecord) (demands : List (Kinds × Bool)) :
    (record.afterDemands demands).mustUnbox =
      (record.mustUnbox || (!record.isJunk && demands.any Prod.snd)) := by
  induction demands generalizing record with
  | nil => simp [afterDemands]
  | cons demand rest ih =>
      have hrest := ih (record.afterDemand demand.1 demand.2)
      rw [mustUnbox_afterDemand, (record.grows_afterDemand demand.1 demand.2).isJunk] at hrest
      rw [List.any_cons, Bool.and_or_distrib_left, ← Bool.or_assoc]
      exact hrest

/-- Demands that something agrees with leave all that agrees with them. -/
theorem narrows_afterDemands {floor : Origin} (h : record.origin.Narrows floor)
    (hfree : record.origin.definition? = none) (hknown : floor.known ≠ ∅)
    (demands : List (Kinds × Bool)) (hmet : ∀ demand ∈ demands, floor.Met demand.1) :
    (record.afterDemands demands).origin.Narrows floor := by
  induction demands generalizing record with
  | nil => exact h
  | cons demand rest ih =>
      obtain ⟨hfirst, hrest⟩ := List.forall_mem_cons.mp hmet
      obtain ⟨hleft, hleftFree⟩ := narrows_afterDemand h hfree hknown hfirst demand.2
      exact ih hleft hleftFree hrest

/-- Demands that something agrees with may be made in any order. -/
theorem afterDemands_perm {floor : Origin} (h : record.origin.Narrows floor)
    (hfree : record.origin.definition? = none) (hknown : floor.known ≠ ∅)
    {demands others : List (Kinds × Bool)} (hperm : demands.Perm others)
    (hmet : ∀ demand ∈ demands, floor.Met demand.1) :
    record.afterDemands demands = record.afterDemands others := by
  -- the floor stays below the record, so the rest of the demands agree on it as well
  induction hperm generalizing record with
  | nil => rfl
  | cons demand _ ih =>
      obtain ⟨hfirst, hrest⟩ := List.forall_mem_cons.mp hmet
      obtain ⟨hleft, hleftFree⟩ := narrows_afterDemand h hfree hknown hfirst demand.2
      exact ih hleft hleftFree hrest
  | swap first second rest =>
      obtain ⟨hsecond, hrest⟩ := List.forall_mem_cons.mp hmet
      obtain ⟨hfirst, -⟩ := List.forall_mem_cons.mp hrest
      have hcomm := Origin.narrow_comm h hfree hfirst hsecond hknown
      have hswap := record.afterDemand_comm hcomm second.2 first.2
      change ((record.afterDemand second.1 second.2).afterDemand first.1 first.2).afterDemands rest =
        ((record.afterDemand first.1 first.2).afterDemand second.1 second.2).afterDemands rest
      rw [hswap]
  | trans hfirst _ ih ih' =>
      rw [ih h hfree hmet]
      exact ih' h hfree fun demand hdemand => hmet demand (hfirst.mem_iff.mpr hdemand)

/-- Demands that have been met have no effect if they are made again. -/
theorem afterDemands_of_met (demands : List (Kinds × Bool))
    (hmet : ∀ demand ∈ demands, record.origin.Met demand.1)
    (hunbox : record.isJunk = false →
      ∀ demand ∈ demands, demand.2 = true → record.mustUnbox = true) :
    record.afterDemands demands = record := by
  induction demands with
  | nil => rfl
  | cons demand rest ih =>
      obtain ⟨hfirst, hrest⟩ := List.forall_mem_cons.mp hmet
      have hnothing : record.afterDemand demand.1 demand.2 = record := by
        cases hjunk : record.isJunk with
        | true => exact if_pos hjunk
        | false =>
            have hneeded := hunbox hjunk demand List.mem_cons_self
            have hsame : (record.mustUnbox || demand.2) = record.mustUnbox := by
              cases hbox : demand.2 with
              | true => rw [hneeded hbox, Bool.or_true]
              | false => exact Bool.or_false _
            rw [afterDemand_of_live hjunk, Origin.narrow_of_met hfirst, hsame]
      have hall := ih hrest fun hlive other hother =>
        hunbox hlive other (List.mem_cons_of_mem _ hother)
      change (record.afterDemand demand.1 demand.2).afterDemands rest = record
      rw [hnothing, hall]

end NameRecord

end FrameLang
