import Mathlib.Data.List.Nodup
import NetSystem.StaMac

/-!
# The candidate list and its reference

What `UpdateCandidateApList` is for: `reference` keeps of every AP its
latest report, drops the reports below the threshold and sorts the rest by
descending SNR, ties in order of report. The code edits the list in place,
one report at a time: erase, reject, insert. `updateList_reference` is the
simulation step between the two.
-/

namespace NetSystem

namespace StaMac

variable {Addr Ssid Snr Db : Type*} [DecidableEq Addr]

/-! ## Reference -/

/-- The latest report of every AP, in order of report. -/
def latest : List (ApInfo Addr Ssid Snr) → List (ApInfo Addr Ssid Snr)
  | [] => []
  | r :: rs => if rs.any fun x => decide (x.bssid = r.bssid) then latest rs else r :: latest rs

/-- The candidate list that a sequence of reports should lead to. -/
def reference [LinearOrder Snr] [LinearOrder Db] (c : Config Addr Ssid Snr Db)
    (rs : List (ApInfo Addr Ssid Snr)) : List (ApInfo Addr Ssid Snr) :=
  sortDesc (·.snr) ((latest rs).filter fun x => !weak c x.snr)

theorem mem_of_mem_latest : ∀ {rs : List (ApInfo Addr Ssid Snr)} {x : ApInfo Addr Ssid Snr},
    x ∈ latest rs → x ∈ rs
  | r :: rs, x, h => by
      rw [latest] at h
      split at h
      · exact List.mem_cons_of_mem r (mem_of_mem_latest h)
      · rcases List.mem_cons.mp h with rfl | h
        · exact List.mem_cons_self ..
        · exact List.mem_cons_of_mem r (mem_of_mem_latest h)

theorem latest_nodup (rs : List (ApInfo Addr Ssid Snr)) :
    ((latest rs).map (·.bssid)).Nodup := by
  induction rs with
  | nil => simp [latest]
  | cons r rs ih =>
      rw [latest]
      split
      · exact ih
      · rename_i hlater
        rw [List.map_cons, List.nodup_cons]
        refine ⟨fun hmem => hlater ?_, ih⟩
        obtain ⟨x, hx, heq⟩ := List.mem_map.mp hmem
        exact List.any_eq_true.mpr ⟨x, mem_of_mem_latest hx, by simpa using heq⟩

/-- A new report replaces the one of its AP and is the latest of all. -/
theorem latest_concat (r : ApInfo Addr Ssid Snr) (rs : List (ApInfo Addr Ssid Snr)) :
    latest (rs ++ [r]) = (latest rs).filter (fun x => decide (r.bssid ≠ x.bssid)) ++ [r] := by
  induction rs with
  | nil => simp [latest]
  | cons x rs ih =>
      rw [List.cons_append, latest, latest, List.any_append, ih]
      by_cases hlater : rs.any fun y => decide (y.bssid = x.bssid)
      · simp [hlater]
      · by_cases hr : r.bssid = x.bssid
        · simp [hlater, hr]
        · simp [hlater, hr]

/-! ## The list in place -/

/-- Without duplicates, the loop that erases the entry of an AP erases all
there is of it. -/
theorem eraseP_eq_filter {l : List (ApInfo Addr Ssid Snr)} (b : Addr)
    (hnodup : (l.map (·.bssid)).Nodup) :
    l.eraseP (fun x => decide (b = x.bssid)) = l.filter fun x => decide (b ≠ x.bssid) := by
  induction l with
  | nil => rfl
  | cons x l ih =>
      rw [List.map_cons, List.nodup_cons] at hnodup
      by_cases hx : b = x.bssid
      · have hnone : ∀ y ∈ l, decide (b ≠ y.bssid) = true := by
          intro y hy
          rw [decide_eq_true_eq]
          rintro rfl
          exact hnodup.1 (hx ▸ List.mem_map.mpr ⟨y, hy, rfl⟩)
        rw [List.eraseP_cons_of_pos (by simpa using hx),
          List.filter_cons_of_neg (by simpa using hx), List.filter_eq_self.mpr hnone]
      · rw [List.eraseP_cons_of_neg (by simpa using hx),
          List.filter_cons_of_pos (by simpa using hx), ih hnodup.2]

variable [LinearOrder Snr] [LinearOrder Db] {c : Config Addr Ssid Snr Db}

theorem mem_updateList {l : List (ApInfo Addr Ssid Snr)} {ap x : ApInfo Addr Ssid Snr}
    (hnodup : (l.map (·.bssid)).Nodup) :
    x ∈ updateList c l ap ↔
      (x = ap ∧ weak c ap.snr = false) ∨ (x ∈ l ∧ ap.bssid ≠ x.bssid) := by
  simp only [updateList, eraseP_eq_filter _ hnodup]
  split
  · rename_i hweak
    simp [hweak]
  · rename_i hstrong
    rw [insertAp, (insertBelow_perm ap _).mem_iff, List.mem_cons]
    simp [hstrong]

theorem updateList_nodup {l : List (ApInfo Addr Ssid Snr)} (ap : ApInfo Addr Ssid Snr)
    (hnodup : (l.map (·.bssid)).Nodup) : ((updateList c l ap).map (·.bssid)).Nodup := by
  have hrest : ((l.filter fun x => decide (ap.bssid ≠ x.bssid)).map (·.bssid)).Nodup :=
    hnodup.sublist (List.filter_sublist.map _)
  simp only [updateList, eraseP_eq_filter _ hnodup]
  split
  · exact hrest
  · rw [insertAp, ((insertBelow_perm ap _).map _).nodup_iff, List.map_cons, List.nodup_cons]
    refine ⟨fun hmem => ?_, hrest⟩
    obtain ⟨x, hx, heq⟩ := List.mem_map.mp hmem
    simp only [List.mem_filter, decide_eq_true_eq] at hx
    exact hx.2 heq.symm

/-! ## Simulation -/

theorem reference_nodup (rs : List (ApInfo Addr Ssid Snr)) :
    ((reference c rs).map (·.bssid)).Nodup := by
  rw [reference, ((sortDesc_perm _).map _).nodup_iff]
  exact (latest_nodup rs).sublist (List.filter_sublist.map _)

/-- **The simulation step**: one more report. -/
theorem updateList_reference (rs : List (ApInfo Addr Ssid Snr)) (ap : ApInfo Addr Ssid Snr) :
    updateList c (reference c rs) ap = reference c (rs ++ [ap]) := by
  simp only [updateList, eraseP_eq_filter _ (reference_nodup rs)]
  have hrest : (reference c rs).filter (fun x => decide (ap.bssid ≠ x.bssid)) =
      sortDesc (·.snr) (((latest rs).filter fun x => decide (ap.bssid ≠ x.bssid)).filter
        fun x => !weak c x.snr) := by
    rw [reference, ← sortDesc_filter, List.filter_comm]
  rw [hrest, reference, latest_concat, List.filter_append]
  split
  · rename_i hweak
    simp [hweak]
  · rename_i hstrong
    rw [List.filter_cons_of_pos (by simpa using hstrong), List.filter_nil, sortDesc_concat,
      insertAp]

/-- What a candidate list is asked to be: the latest reports that are not
below the threshold, every AP once, best first, ties in order of report. -/
structure CandidateSpec (c : Config Addr Ssid Snr Db) (rs l : List (ApInfo Addr Ssid Snr)) :
    Prop where
  mem : ∀ ap, ap ∈ l ↔ ap ∈ latest rs ∧ c.snrThreshold ≤ c.dB ap.snr
  nodup : (l.map (·.bssid)).Nodup
  sorted : l.Pairwise fun a b => b.snr ≤ a.snr
  ties : ∀ v, l.filter (fun ap => decide (ap.snr = v)) =
    ((latest rs).filter fun ap => decide (c.snrThreshold ≤ c.dB ap.snr)).filter
      fun ap => decide (ap.snr = v)

theorem reference_spec (c : Config Addr Ssid Snr Db) (rs : List (ApInfo Addr Ssid Snr)) :
    CandidateSpec c rs (reference c rs) where
  mem := by
    intro ap
    rw [reference, mem_sortDesc, List.mem_filter]
    simp [weak]
  nodup := reference_nodup rs
  sorted := sortDesc_sorted _
  ties := by
    intro v
    have hstrong : ∀ ap : ApInfo Addr Ssid Snr,
        decide (c.snrThreshold ≤ c.dB ap.snr) = !weak c ap.snr := by
      intro ap
      simp [weak, ← not_lt]
    simp only [reference, sortDesc_ties, hstrong]

end StaMac

end NetSystem
