import SGXessControll.System
import Mathlib.Data.Set.Card

/-!
# Addresses as texts

The Proxy writes an address with `inet_ntop`, the manager writes the demo addresses number by
number, and the Controller compares the texts. Nothing is lost on the way: a text tells which
address it is, and which addresses the demo policies are for.
-/

namespace SGXess

set_option autoImplicit false

open Controller.PolicyManager
open Proxy.ProxyListener (inetNtop clientString)

/-- Numbers with dots between them. -/
def dotted (ns : List Nat) : Str := List.intercalate (text ".") (ns.map toStr)

theorem toStr_injective : Function.Injective toStr := by
  intro n m h
  have hchars : ∀ k, (toStr k).map (fun b => Char.ofNat b.toNat) = Nat.toDigits 10 k := by
    intro k
    rw [toStr, List.map_map]
    refine (List.map_congr_left fun c hc => ?_).trans (List.map_id _)
    have hle := (toStr_digit (List.mem_map_of_mem hc)).2
    have hdigit := Nat.isDigit_of_mem_toDigits (by omega) (by omega) hc
    have hsmall : c.toNat < 256 := by
      simp only [Char.isDigit, Bool.and_eq_true, decide_eq_true_eq, ge_iff_le,
        UInt32.le_iff_toNat_le, Char.toNat_val] at hdigit
      have h9 : ('9' : Char).toNat = 57 := rfl
      omega
    have hbyte : c.toNat.toUInt8.toNat = c.toNat := by
      rw [Nat.toUInt8_eq, UInt8.toNat_ofNat', Nat.mod_eq_of_lt hsmall]
    simp only [Function.comp_apply, hbyte, Char.ofNat_toNat, id]
  have hdigits : Nat.toDigits 10 n = Nat.toDigits 10 m := by rw [← hchars n, h, hchars m]
  rw [← Nat.ofDigitChars_ten_toDigits (n := n), hdigits, Nat.ofDigitChars_ten_toDigits]

theorem dot_not_mem (n : Nat) : (46 : UInt8) ∉ toStr n := by
  intro h
  exact absurd (toStr_digit h).1 (by decide)

theorem separator_not_mem_dotted (ns : List Nat) : (0x7c : UInt8) ∉ dotted ns := by
  have hdigits : ∀ n, (0x7c : UInt8) ∉ toStr n := by
    intro n h
    exact absurd (toStr_digit h).2 (by decide)
  induction ns with
  | nil => exact List.not_mem_nil
  | cons n ns ih =>
    cases ns with
    | nil =>
      simpa [dotted, List.intercalate] using hdigits n
    | cons m ns =>
      have hcons : dotted (n :: m :: ns) = toStr n ++ text "." ++ dotted (m :: ns) := by
        simp [dotted, List.intercalate]
      have hdot : (0x7c : UInt8) ∉ text "." := by decide
      rw [hcons, List.mem_append, List.mem_append, not_or, not_or]
      exact ⟨⟨hdigits n, hdot⟩, ih⟩

/-- The numbers can be read back from the text. -/
theorem dotted_inj {ns ms : List Nat} (hns : ns ≠ []) (hms : ms ≠ []) :
    dotted ns = dotted ms ↔ ns = ms := by
  refine ⟨fun h => ?_, fun h => congrArg dotted h⟩
  have hsplit : ∀ ns : List Nat, ns ≠ [] → (dotted ns).splitOn 46 = ns.map toStr := by
    intro ns hns
    refine List.splitOn_intercalate 46 ?_ (by simpa using hns)
    intro s hs
    obtain ⟨n, _, rfl⟩ := List.mem_map.mp hs
    exact dot_not_mem n
  refine toStr_injective.list_map ?_
  rw [← hsplit ns hns, h, hsplit ms hms]

theorem inetNtop_eq (addr : Str) : inetNtop addr = dotted (addr.map UInt8.toNat) := by
  rw [inetNtop, dotted, List.map_map]
  rfl

theorem demoAddress_eq (i j k : Nat) : demoAddress i j k = dotted [192, i, j, k] := by
  have hhead : text "192." = toStr 192 ++ text "." := by decide
  simp [demoAddress, dotted, hhead, List.intercalate, List.intersperse]

theorem inetNtop_inj {addr addr' : Str} (h : addr.length = 4) (h' : addr'.length = 4) :
    inetNtop addr = inetNtop addr' ↔ addr = addr' := by
  have hne : ∀ a : Str, a.length = 4 → a.map UInt8.toNat ≠ [] := by
    intro a ha hnil
    rw [List.map_eq_nil_iff.mp hnil] at ha
    cases ha
  rw [inetNtop_eq, inetNtop_eq, dotted_inj (hne addr h) (hne addr' h')]
  exact (List.map_injective_iff.mpr fun _ _ => UInt8.toNat.inj).eq_iff

theorem demoAddress_inj {i j k i' j' k' : Nat} :
    demoAddress i j k = demoAddress i' j' k' ↔ i = i' ∧ j = j' ∧ k = k' := by
  rw [demoAddress_eq, demoAddress_eq, dotted_inj (List.cons_ne_nil _ _) (List.cons_ne_nil _ _)]
  simp

/-- A demo policy is for the IPv4 addresses it looks like. -/
theorem preloaded_iff (a b c d : UInt8) : Preloaded (inetNtop [a, b, c, d]) ↔
    a = 192 ∧ b.toNat < 255 ∧ c.toNat < 255 ∧ d.toNat < 100 := by
  constructor
  · rintro ⟨i, j, k, hi, hj, hk, heq⟩
    rw [inetNtop_eq, demoAddress_eq] at heq
    have heq := (dotted_inj (List.cons_ne_nil _ _) (List.cons_ne_nil _ _)).mp heq
    simp only [List.map_cons, List.map_nil, List.cons.injEq, and_true] at heq
    obtain ⟨ha, rfl, rfl, rfl⟩ := heq
    exact ⟨UInt8.toNat.inj ha, hi, hj, hk⟩
  · rintro ⟨rfl, hb, hc, hd⟩
    refine ⟨_, _, _, hb, hc, hd, ?_⟩
    rw [inetNtop_eq, demoAddress_eq]
    rfl

theorem denies_loaded : System.Denies loaded := by
  intro IP hIP
  rw [loaded, foldl_updatePolicy, Option.none_or, Option.map_eq_some_iff] at hIP
  obtain ⟨policy, hfind, hallows⟩ := hIP
  rw [System.allows_demoPolicies (List.mem_of_find?_eq_some hfind)] at hallows
  cases hallows

theorem loaded_eq_false_iff (IP : Str) : loaded IP = some false ↔ Preloaded IP := by
  have hnone := loaded_eq_none_iff IP
  cases hIP : loaded IP with
  | none =>
    rw [hIP] at hnone
    simpa using hnone.mp rfl
  | some v =>
    rw [hIP] at hnone
    cases v with
    | true => exact absurd hIP (denies_loaded IP)
    | false => simpa using hnone

section AccessLists

/-- An IPv4 address. -/
abbrev Address := { addr : Str // addr.length = 4 }

/-- The first rule for an address decides; without one it is denied. -/
def decides (rules : List (Address × Bool)) (client : Address) : Bool :=
  ((rules.find? fun rule => rule.1 = client).map Prod.snd).getD false

def written (rule : Address × Bool) : Str :=
  inetNtop rule.1.val ++ 0x7c :: if rule.2 = true then text "allow" else text "deny"

theorem separator_not_mem_inetNtop (addr : Str) : (0x7c : UInt8) ∉ inetNtop addr := by
  rw [inetNtop_eq]
  exact separator_not_mem_dotted _

theorem address_written (rule : Address × Bool) : address (written rule) = inetNtop rule.1.val :=
  address_separator (separator_not_mem_inetNtop _)

theorem allows_written (rule : Address × Bool) : allows (written rule) = rule.2 := by
  obtain ⟨⟨addr, haddr⟩, allow⟩ := rule
  have haction : (if allow = true then text "allow" else text "deny").length ≤ 5 := by
    cases allow <;> decide
  have hlen : (inetNtop addr ++ 0x7c :: if allow = true then text "allow" else text "deny").length
      < npos := by
    have haddr := (inetNtop_length haddr).2
    rw [List.length_append, List.length_cons, npos]
    omega
  rw [written, allows_separator (separator_not_mem_inetNtop addr) hlen]
  cases allow with
  | false => exact decide_eq_false (by decide)
  | true => exact decide_eq_true rfl

/-- Rules written as policies, and a client as the Proxy writes it: the map answers as the rules
do, for every client. -/
theorem validateRequest_written (rules : List (Address × Bool)) (client : Address) :
    validateRequest (stored (rules.map written)) (Exchange.untilZero (clientString client.val)) =
      decides rules client := by
  have hfind : ((rules.map written).find? fun p => address p = inetNtop client.val) =
      (rules.find? fun rule => rule.1 = client).map written := by
    rw [List.find?_map]
    congr 2
    funext rule
    simp only [Function.comp_apply, address_written, Subtype.ext_iff,
      inetNtop_inj rule.1.property client.property]
  rw [Exchange.untilZero, clientString_takeWhile client.property, Store.validateRequest_eq,
    stored_apply, hfind, Option.map_map, decides]
  congr 2
  funext rule
  exact allows_written rule

end AccessLists

/-- No insertion of the load loop is ignored: there is an entry for each of them, and each of them
denies. An IPv4 client has one exactly if it is one of 192.0.0.0 to 192.254.254.99, with the
bounds taken number by number. -/
theorem loaded_entries : {IP | loaded IP ≠ none}.ncard = 255 * 255 * 100 ∧
    (∀ IP, loaded IP ≠ some true) ∧
    ∀ a b c d, loaded (inetNtop [a, b, c, d]) = some false ↔
      a = 192 ∧ b.toNat < 255 ∧ c.toNat < 255 ∧ d.toNat < 100 := by
  refine ⟨?_, denies_loaded, fun a b c d => ?_⟩
  · let numbers : Finset (Nat × Nat × Nat) :=
      Finset.range 255 ×ˢ Finset.range 255 ×ˢ Finset.range 100
    have hinj : Function.Injective fun n : Nat × Nat × Nat => demoAddress n.1 n.2.1 n.2.2 := by
      rintro ⟨i, j, k⟩ ⟨i', j', k'⟩ heq
      obtain ⟨rfl, rfl, rfl⟩ := demoAddress_inj.mp heq
      rfl
    have himage : {IP | loaded IP ≠ none} =
        (fun n : Nat × Nat × Nat => demoAddress n.1 n.2.1 n.2.2) '' numbers := by
      ext IP
      rw [Set.mem_ofPred_eq, ne_eq, loaded_eq_none_iff, not_not]
      simp only [Preloaded, Set.mem_image, Finset.mem_coe, numbers, Finset.mem_product,
        Finset.mem_range, Prod.exists]
      constructor
      · rintro ⟨i, j, k, hi, hj, hk, rfl⟩
        exact ⟨i, j, k, ⟨hi, hj, hk⟩, rfl⟩
      · rintro ⟨i, j, k, ⟨hi, hj, hk⟩, rfl⟩
        exact ⟨i, j, k, hi, hj, hk, rfl⟩
    rw [himage, Set.ncard_image_of_injective _ hinj, Set.ncard_coe_finset, Finset.card_product,
      Finset.card_product, Finset.card_range, Finset.card_range]
  · rw [loaded_eq_false_iff, preloaded_iff]

end SGXess
