import SGXessControll.PolicyStore

/-!
# Which policies grant access

The first policy for an address stays, whatever follows it. A policy without a separator is
an address and an action at once, since the position behind the separator wraps to 0.
-/

namespace SGXess.Controller.PolicyManager

set_option autoImplicit false

/-- No `std::string` has `npos` bytes. -/
abbrev StdString := { s : Str // s.length < npos }

/-- The map `policies` make of an empty one. -/
def stored (policies : List Str) : PolicyMap := policies.foldl updatePolicy fun _ => none

theorem stored_apply (policies : List Str) (IP : Str) :
    stored policies IP = (policies.find? fun p => address p = IP).map allows := by
  rw [stored, foldl_updatePolicy, Option.none_or]

theorem stored_append (before : List Str) (policy IP : Str) :
    stored (before ++ [policy]) IP =
      (stored before IP).or (if address policy = IP then some (allows policy) else none) := by
  rw [stored_apply, stored_apply, List.find?_append]
  by_cases h : address policy = IP
  · cases before.find? fun p => address p = IP <;> simp [h]
  · cases before.find? fun p => address p = IP <;> simp [h]

theorem validateRequest_stored {policies : List Str} {IP : Str} :
    validateRequest (stored policies) IP = true ↔ stored policies IP = some true := by
  rw [Store.validateRequest_eq]
  rcases stored policies IP with _ | _ | _ <;> simp

section Separator

variable {IP action : Str} (hIP : (0x7c : UInt8) ∉ IP)
include hIP

theorem find_separator : find (IP ++ 0x7c :: action) 0x7c = IP.length := by
  rw [find, if_pos (by simp), List.idxOf_append_of_notMem hIP]
  simp

theorem address_separator : address (IP ++ 0x7c :: action) = IP := by
  rw [address, find_separator hIP, substr, List.drop_zero, List.take_left]

theorem allows_separator (hlen : (IP ++ 0x7c :: action).length < npos) :
    allows (IP ++ 0x7c :: action) = decide (action = text "allow") := by
  have hbound : IP.length + action.length + 1 < npos := by
    simpa [Nat.add_assoc] using hlen
  have hpos : (IP.length + 1) % 2 ^ 64 = IP.length + 1 := by
    apply Nat.mod_eq_of_lt
    unfold npos at hbound
    omega
  have hdrop : (IP ++ 0x7c :: action).drop (IP.length + 1) = action := by simp
  have htake : action.take npos = action := List.take_of_length_le (by omega)
  simp only [allows, find_separator hIP, hpos, substr, hdrop, htake]

end Separator

theorem address_bare {s : StdString} (hs : (0x7c : UInt8) ∉ s.val) : address s.val = s.val := by
  rw [address, find, if_neg hs, substr, List.drop_zero,
    List.take_of_length_le (Nat.le_of_lt s.property)]

theorem allows_bare {s : StdString} (hs : (0x7c : UInt8) ∉ s.val) :
    allows s.val = decide (s.val = text "allow") := by
  have hwrap : (npos + 1) % 2 ^ 64 = 0 := rfl
  simp only [allows, find, if_neg hs, hwrap, substr, List.drop_zero,
    List.take_of_length_le (Nat.le_of_lt s.property)]

theorem exists_separator {s : Str} (hs : (0x7c : UInt8) ∈ s) :
    ∃ IP action : Str, (0x7c : UInt8) ∉ IP ∧ s = IP ++ 0x7c :: action := by
  obtain ⟨IP, action, hsplit, hIP⟩ := List.eq_append_cons_of_mem hs
  exact ⟨IP, action, hIP, hsplit⟩

/-- A well-formed policy `IP|action`. -/
structure Rule where
  IP : Str
  action : Str
  plain : (0x7c : UInt8) ∉ IP
  bounded : (IP ++ 0x7c :: action).length < npos

namespace Rule

def policy (rule : Rule) : Str := rule.IP ++ 0x7c :: rule.action

def Allows (rule : Rule) : Prop := rule.action = text "allow"

instance (rule : Rule) : Decidable rule.Allows := inferInstanceAs (Decidable (_ = _))

@[simp] theorem address_policy (rule : Rule) : address rule.policy = rule.IP :=
  address_separator rule.plain

@[simp] theorem allows_policy (rule : Rule) : allows rule.policy = decide rule.Allows :=
  allows_separator rule.plain rule.bounded

/-- The rules for one address, in their order. -/
def about (IP : Str) (history : List Rule) : List Rule := history.filter fun r => r.IP = IP

theorem find_about (IP : Str) (history : List Rule) :
    ((history.map policy).find? fun p => address p = IP) = (about IP history).head?.map policy := by
  rw [List.find?_map, about, List.head?_filter]
  simp only [Function.comp_def, address_policy]

theorem grants_iff (IP : Str) (history : List Rule) :
    validateRequest (stored (history.map policy)) IP = true ↔
      ∃ rule ∈ (about IP history).head?, rule.Allows := by
  rw [validateRequest_stored, stored_apply, find_about, Option.map_map]
  cases (about IP history).head? <;> simp

end Rule

/-- After `history` the last policy for `IP` decides. -/
def LastWriterWins (history : List Rule) (IP : Str) : Prop :=
  validateRequest (stored (history.map Rule.policy)) IP = true ↔
    ∃ rule ∈ (Rule.about IP history).getLast?, rule.Allows

/-- The first policy for an address decides, so the last one does exactly if both agree. -/
theorem last_writer_wins_iff (history : List Rule) (IP : Str) :
    LastWriterWins history IP ↔
      ((∃ rule ∈ (Rule.about IP history).head?, rule.Allows) ↔
        ∃ rule ∈ (Rule.about IP history).getLast?, rule.Allows) := by
  rw [LastWriterWins, Rule.grants_iff]

/-- A revoked address stays allowed. -/
theorem revocation_ignored : ¬ ∀ history IP, LastWriterWins history IP := by
  intro hall
  let allow : Rule := ⟨text "10.0.0.1", text "allow", by decide, by decide⟩
  let deny : Rule := ⟨text "10.0.0.1", text "deny", by decide, by decide⟩
  have hrevoked := hall [allow, deny] (text "10.0.0.1")
  rw [LastWriterWins, Rule.grants_iff] at hrevoked
  obtain ⟨rule, hlast, hallows⟩ := hrevoked.mp ⟨allow, rfl, rfl⟩
  cases hlast
  exact absurd hallows (by decide)

/-- `policy` is `IP|allow` for an address without a separator. -/
def Explicit (IP policy : Str) : Prop := policy = IP ++ text "|allow" ∧ (0x7c : UInt8) ∉ IP

/-- The text `allow`, which is its own address. -/
def bareAllow : StdString := ⟨text "allow", by decide⟩

theorem explicit_or_bare {s : StdString} (hs : allows s.val = true) :
    Explicit (address s.val) s.val ∨ s = bareAllow := by
  by_cases hmem : (0x7c : UInt8) ∈ s.val
  · left
    obtain ⟨IP, action, hIP, hsplit⟩ := exists_separator hmem
    have hlen := s.property
    rw [hsplit] at hs hlen ⊢
    rw [allows_separator hIP hlen, decide_eq_true_eq] at hs
    rw [address_separator hIP, hs]
    exact ⟨rfl, hIP⟩
  · right
    rw [allows_bare hmem, decide_eq_true_eq] at hs
    exact Subtype.ext hs

theorem not_explicit_bareAllow (IP : Str) : ¬ Explicit IP bareAllow.val := by
  intro h
  have hlen := congrArg List.length h.1
  have hbare : bareAllow.val.length = 5 := rfl
  have htail : (text "|allow").length = 6 := rfl
  rw [List.length_append, hbare, htail] at hlen
  omega

/-- The map strings make of an empty one. -/
def storedStrings (policies : List StdString) : PolicyMap := stored (policies.map Subtype.val)

theorem storedStrings_append (before : List StdString) (p : StdString) (IP : Str) :
    storedStrings (before ++ [p]) IP =
      (storedStrings before IP).or (if address p.val = IP then some (allows p.val) else none) := by
  rw [storedStrings, List.map_append, List.map_singleton, stored_append]
  rfl

theorem storedStrings_eq_none {policies : List StdString} {IP : Str} :
    storedStrings policies IP = none ↔ (policies.find? fun p => address p.val = IP) = none := by
  rw [storedStrings, stored_apply, List.find?_map, Option.map_eq_none_iff, Option.map_eq_none_iff]
  rfl

theorem storedStrings_eq_true {policies : List StdString} {IP : Str} :
    storedStrings policies IP = some true ↔
      ∃ p, (policies.find? fun p => address p.val = IP) = some p ∧ allows p.val = true := by
  rw [storedStrings, stored_apply, List.find?_map]
  simp only [Option.map_eq_some_iff, Function.comp_def, exists_exists_and_eq_and]

/-- Only a policy `IP|allow` grants anything: every request that is granted has one, and no
other string makes an entry that grants a request. -/
def FailClosed (policies : List StdString) : Prop :=
  (∀ IP, validateRequest (storedStrings policies) IP = true →
      ∃ p ∈ policies, Explicit IP p.val) ∧
    ∀ before p after, policies = before ++ p :: after → (∀ IP, ¬ Explicit IP p.val) →
      ∀ IP, storedStrings (before ++ [p]) IP = some true → storedStrings before IP = some true

/-- The first string with the address `allow`, if there is one. -/
def firstForAllow (policies : List StdString) : Option StdString :=
  policies.find? fun p => address p.val = text "allow"

theorem address_bareAllow : address bareAllow.val = text "allow" := address_bare (by decide)

theorem granted_explicit {policies : List StdString} {IP : Str}
    (hfirst : firstForAllow policies ≠ some bareAllow)
    (hIP : validateRequest (storedStrings policies) IP = true) :
    ∃ p ∈ policies, Explicit IP p.val := by
  obtain ⟨p, hfind, hallows⟩ := storedStrings_eq_true.mp (validateRequest_stored.mp hIP)
  have haddr : address p.val = IP := of_decide_eq_true (List.find?_some hfind :)
  rcases explicit_or_bare hallows with hp | rfl
  · rw [haddr] at hp
    exact ⟨p, List.mem_of_find?_eq_some hfind, hp⟩
  · rw [address_bareAllow] at haddr
    subst IP
    exact absurd hfind hfirst

theorem created_explicit {before after : List StdString} {p : StdString} {IP : Str}
    (hfirst : firstForAllow (before ++ p :: after) ≠ some bareAllow)
    (hp : ∀ IP, ¬ Explicit IP p.val) (hIP : storedStrings (before ++ [p]) IP = some true) :
    storedStrings before IP = some true := by
  rw [storedStrings_append] at hIP
  cases hbefore : storedStrings before IP with
  | some v =>
    rw [hbefore, Option.some_or] at hIP
    exact hIP
  | none =>
    rw [hbefore, Option.none_or] at hIP
    exfalso
    split at hIP
    · rename_i haddr
      rcases explicit_or_bare (Option.some.inj hIP) with hexplicit | rfl
      · exact hp _ hexplicit
      · rw [address_bareAllow] at haddr
        subst IP
        apply hfirst
        rw [firstForAllow, List.find?_append, storedStrings_eq_none.mp hbefore, Option.none_or]
        exact List.find?_cons_of_pos (decide_eq_true address_bareAllow)
    · cases hIP

theorem bare_creates {policies : List StdString}
    (hfirst : firstForAllow policies = some bareAllow) :
    ∃ before after, policies = before ++ bareAllow :: after ∧
      storedStrings (before ++ [bareAllow]) (text "allow") = some true ∧
      storedStrings before (text "allow") = none := by
  obtain ⟨_, before, after, hsplit, hbefore⟩ := List.find?_eq_some_iff_append.mp hfirst
  have hnone : storedStrings before (text "allow") = none := by
    rw [storedStrings_eq_none, List.find?_eq_none]
    intro q hq haddr
    have hneg := hbefore q hq
    rw [Bool.not_eq_true', decide_eq_false_iff_not] at hneg
    exact hneg (of_decide_eq_true haddr)
  refine ⟨before, after, hsplit, ?_, hnone⟩
  have hallows : allows bareAllow.val = true := (allows_bare (by decide)).trans rfl
  rw [storedStrings_append, hnone, Option.none_or, if_pos address_bareAllow, hallows]

/-- The one string that grants without being `IP|allow` is the bare `allow`, and it does as
the first one with that address. -/
theorem fail_closed_iff (policies : List StdString) :
    FailClosed policies ↔ firstForAllow policies ≠ some bareAllow := by
  constructor
  · intro h hfirst
    obtain ⟨before, after, hsplit, hcreated, hnone⟩ := bare_creates hfirst
    have hold := h.2 before bareAllow after hsplit not_explicit_bareAllow _ hcreated
    rw [hnone] at hold
    cases hold
  · intro hfirst
    refine ⟨fun IP hIP => granted_explicit hfirst hIP, ?_⟩
    intro before p after hsplit hp IP hIP
    rw [hsplit] at hfirst
    exact created_explicit hfirst hp hIP

/-- The string `allow` grants the request `allow`. -/
theorem bare_allow_grants : ¬ ∀ policies, FailClosed policies := by
  intro hall
  have hgrants : validateRequest (storedStrings [bareAllow]) (text "allow") = true := by decide
  obtain ⟨p, hp, hexplicit⟩ := (hall [bareAllow]).1 _ hgrants
  rw [List.mem_singleton] at hp
  rw [hp] at hexplicit
  exact not_explicit_bareAllow _ hexplicit

end SGXess.Controller.PolicyManager
