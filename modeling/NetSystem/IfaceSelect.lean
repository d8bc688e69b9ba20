import Mathlib.Data.List.Induction
import NetSystem.BrgrHandler
import NetSystem.Run

/-!
# Choosing an interface

The first lines of `main`, word for word the same in
`lab4/packet_capture.cpp` and `ns_project/packet_capture.cpp`: the devices
are printed with numbers from 1 on, their names are kept in the local array
`devices[100]`, and the device whose number is typed in is opened.

`i++` stands in the `printf`, so the name of device number `k` goes to
`devices[k + 1]`, and the selection is incremented before it is used. The
two shifts cancel; what is left of them is that the array has room for 98
devices, not 100, and that nothing stops the loop there.
-/

namespace NetSystem

namespace Iface

/-- The variables of the enumeration loop and what it has printed. A cell of
`devices` that was not written is `none`. -/
structure Enumeration where
  i : Nat
  devices : Fin 100 → Option Str
  printed : List (Nat × Str)

def Enumeration.init : Enumeration where
  i := 1
  devices _ := none
  printed := []

/-- One round: `printf("%2d : %s\n", i++, iface->name); devices[i] = ...`;
`none` if the write is outside of the array. -/
def enumerateStep (e : Enumeration) (name : Str) : Option Enumeration :=
  if h : e.i + 1 < 100 then
    some { i := e.i + 1
           devices := Function.update e.devices ⟨e.i + 1, h⟩ (some name)
           printed := e.printed ++ [(e.i, name)] }
  else none

/-- `for (i = 1, iface = devs; iface; iface = iface->next)`. -/
def enumerate (devs : List Str) : Option Enumeration := run enumerateStep .init devs

/-- `s++; dev = devices[s]`. -/
def selectDevice (e : Enumeration) (s : Nat) : Option Str :=
  if h : s + 1 < 100 then e.devices ⟨s + 1, h⟩ else none

/-- The loop stays inside the array, and the device that is opened is the
one that was printed with number `s`. -/
def SelectsPrinted (devs : List Str) (s : Nat) : Prop :=
  ∃ e dev, enumerate devs = some e ∧ selectDevice e s = some dev ∧
    ∀ name, (s, name) ∈ e.printed ↔ name = dev

/-! ## What the loop computes -/

/-- The variables after the devices `devs`. -/
structure Enumerated (devs : List Str) (e : Enumeration) : Prop where
  i : e.i = devs.length + 1
  devices : ∀ k : Fin 100, 2 ≤ k.val → e.devices k = devs[k.val - 2]?
  printed : ∀ k name, (k, name) ∈ e.printed ↔ 1 ≤ k ∧ devs[k - 1]? = some name

theorem enumerated_init : Enumerated [] .init := ⟨rfl, by simp [Enumeration.init], by
  simp [Enumeration.init]⟩

/-- Entry `k` of a list with one more element. -/
theorem getElem?_snoc {α : Type*} (l : List α) (x : α) (k : Nat) :
    (l ++ [x])[k]? = if k = l.length then some x else l[k]? := by
  rcases Nat.lt_trichotomy k l.length with h | rfl | h
  · rw [if_neg (by omega), List.getElem?_append_left h]
  · rw [if_pos rfl, List.getElem?_concat_length]
  · rw [if_neg (by omega), List.getElem?_eq_none (by simp; omega),
      List.getElem?_eq_none (by omega)]

theorem enumerateStep_enumerated {devs : List Str} {e : Enumeration} (he : Enumerated devs e)
    (name : Str) (h : devs.length < 98) :
    ∃ e', enumerateStep e name = some e' ∧ Enumerated (devs ++ [name]) e' := by
  have hi := he.i
  have hroom : e.i + 1 < 100 := by omega
  refine ⟨_, dif_pos hroom, ⟨by simp [hi], fun k hk => ?_, fun k name' => ?_⟩⟩
  · rw [getElem?_snoc, ← he.devices k hk]
    have hiff : k = ⟨e.i + 1, hroom⟩ ↔ k.val - 2 = devs.length := by
      rw [Fin.ext_iff]
      simp only [hi]
      omega
    simp only [Function.update_apply, hiff]
  · simp only [List.mem_append, List.mem_singleton, Prod.mk.injEq, he.printed, getElem?_snoc, hi]
    by_cases hk : k = devs.length + 1
    · -- the number printed last was not printed before
      have hold : devs[k - 1]? = none := by
        rw [hk]
        simp
      rw [hold, if_pos (by omega)]
      simp only [Option.some.injEq, reduceCtorEq, and_false, false_or, hk, true_and]
      exact ⟨fun h => ⟨by omega, h.symm⟩, fun h => h.2.symm⟩
    · have hne : 1 ≤ k → k - 1 ≠ devs.length := by omega
      constructor
      · rintro (⟨h1, hold⟩ | ⟨rfl, -⟩)
        · exact ⟨h1, by rw [if_neg (hne h1)]; exact hold⟩
        · exact absurd rfl hk
      · rintro ⟨h1, hnew⟩
        rw [if_neg (hne h1)] at hnew
        exact Or.inl ⟨h1, hnew⟩

/-- Up to 98 devices the loop goes through. -/
theorem enumerate_enumerated {devs : List Str} (h : devs.length ≤ 98) :
    ∃ e, enumerate devs = some e ∧ Enumerated devs e := by
  induction devs using List.reverseRecOn with
  | nil => exact ⟨.init, rfl, enumerated_init⟩
  | append_singleton devs name ih =>
      rw [List.length_append, List.length_singleton] at h
      obtain ⟨e, he, hinv⟩ := ih (by omega)
      obtain ⟨e', he', hinv'⟩ := enumerateStep_enumerated hinv name (by omega)
      rw [enumerate] at he
      refine ⟨e', ?_, hinv'⟩
      rw [enumerate, run_snoc, he, Option.bind_some, he']

/-- The 99th is written behind the array. -/
theorem enumerate_eq_none {devs : List Str} (h : 98 < devs.length) : enumerate devs = none := by
  have hlen : (devs.take 98).length = 98 := by rw [List.length_take]; omega
  obtain ⟨e, he, hinv⟩ := enumerate_enumerated hlen.le
  have hi := hinv.i
  rw [enumerate] at he
  rw [enumerate, ← List.take_append_drop 98 devs, run_append, he, Option.bind_some,
    List.drop_eq_getElem_cons h, run_cons, enumerateStep, dif_neg (by omega), Option.bind_none]

/-- The selection works exactly for up to 98 devices. -/
theorem selectsPrinted_iff {devs : List Str} {s : Nat} (h1 : 1 ≤ s) (hs : s ≤ devs.length) :
    SelectsPrinted devs s ↔ devs.length ≤ 98 := by
  constructor
  · rintro ⟨e, dev, he, -⟩
    by_contra hn
    rw [enumerate_eq_none (by omega)] at he
    cases he
  · intro hn
    obtain ⟨e, he, hinv⟩ := enumerate_enumerated hn
    have hdev : devs[s - 1]? = some (devs.get ⟨s - 1, by omega⟩) :=
      List.getElem?_eq_getElem (by omega)
    refine ⟨e, devs.get ⟨s - 1, by omega⟩, he, ?_, fun name => ?_⟩
    · rw [selectDevice, dif_pos (by omega), hinv.devices _ (by simp; omega), ← hdev]
      rfl
    · rw [hinv.printed, hdev, Option.some.injEq]
      exact ⟨fun h => h.2.symm, fun h => ⟨h1, h.symm⟩⟩

/-- The bridge, the uplink and two tunnels. -/
theorem selectsPrinted_four : SelectsPrinted
    ["BRGr-eth0".toList, "BRGr-eth1".toList, Brgr.greName 1, Brgr.greName 2] 2 :=
  (selectsPrinted_iff (by omega) (by simp)).mpr (by simp)

/-- Ninety-nine tunnels: whatever is selected, the array has been overrun. -/
theorem not_selectsPrinted_tunnels : ¬ SelectsPrinted ((List.range 99).map Brgr.greName) 1 := by
  rintro ⟨e, dev, he, -⟩
  rw [enumerate_eq_none (by simp)] at he
  cases he

end Iface

end NetSystem
