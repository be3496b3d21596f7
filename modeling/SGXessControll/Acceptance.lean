import SGXessControll.Malformed

/-!
# Accepted policies

What `setPolicy` makes of a document, however it ends: the entries it reaches one after
another, the fields it stores them in, and when it accepts.
-/

namespace SGXess

set_option autoImplicit false

open Attempts Attempt
open YAML YAML.Handle YAML.Node

/-- The text under `key`. -/
def textOf (n : Node) (key : Str) : Option Str :=
  match n.field key with
  | some (.scalar value) => some value
  | _ => none

theorem textOf_eq_some {n : Node} {key value : Str} :
    textOf n key = some value ↔ n.field key = some (.scalar value) := by
  unfold textOf
  split
  · rename_i hfield
    simp [hfield]
  · rename_i hfield
    simp only [reduceCtorEq, false_iff]
    exact hfield value

theorem textOf_undefined {key : Str} : textOf .undefined key = none := rfl

namespace YAML.Handle

variable {σ : Type} {h : Handle} {n : Node} {key : Str} {s : σ}

theorem keeps_get : (h.get key : Attempt Failure σ Handle).Keeps := by
  rcases h with _ | (_ | _ | _ | _ | _) <;> exact fun _ => rfl

theorem keeps_asString : (h.asString : Attempt Failure σ Str).Keeps := by
  rcases h with _ | (_ | _ | _ | _ | _) <;> exact fun _ => rfl

theorem keeps_type : (h.type : Attempt Failure σ NodeType).Keeps := by
  cases h <;> exact fun _ => rfl

theorem keeps_front : (h.front : Attempt Failure σ IteratorValue).Keeps := by
  unfold front
  split
  · exact keeps_ret
  · split
    · exact keeps_throw
    · exact keeps_throw
    · exact keeps_bind keeps_stray fun _ => keeps_ret

theorem ends_asString_ok {value : Str} {s' : σ} :
    h.asString.Ends s (.ok value) s' ↔ h = valid (.scalar value) ∧ s' = s := by
  rcases h with _ | (_ | _ | _ | _ | _) <;> simp [asString, eq_comm]

theorem ends_subscript_ok {r : Node × Node} {s' : σ} :
    (n.subscript key).Ends s (.ok r) s' ↔
      NotScalar n ∧ r = (n.withKey key, (lookup n.toPairs key).getD undefined) ∧ s' = s := by
  cases n <;> simp [subscript, NotScalar]

theorem keeps_subscript : (n.subscript key : Attempt Failure σ (Node × Node)).Keeps := by
  cases n <;> exact fun _ => rfl

/-- Text is read, or something is thrown. -/
theorem ends_textAt (n : Node) (key : Str) (s : σ) :
    (∃ value, textOf n key = some value ∧ ((valid n).textAt key).Ends s (.ok value) s) ∨
      textOf n key = none ∧ ∃ e, ((valid n).textAt key).Ends s (.error e) s := by
  cases htext : textOf n key with
  | some value => exact .inl ⟨value, rfl, (returns_textAt.mpr ⟨textOf_eq_some.mp htext, rfl⟩).ends⟩
  | none =>
    refine .inr ⟨rfl, ?_⟩
    by_cases hscalar : ∀ value, n ≠ .scalar value
    · have hget := (returns_get.mpr ⟨hscalar, rfl, rfl⟩ :
        ((valid n).get key).Returns s (ofField (n.field key)) s).ends
      unfold textOf at htext
      rcases hfield : n.field key with _ | (_ | _ | value | _ | _) <;> rw [hfield] at hget htext
      case some.scalar => cases htext
      all_goals exact ⟨_, hget.bind ends_throw⟩
    · simp only [ne_eq, not_forall, not_not] at hscalar
      obtain ⟨value, rfl⟩ := hscalar
      exact ⟨_, Ends.bind_error ends_throw⟩

end YAML.Handle

namespace PolicyRules

variable {h : Handle}

theorem keeps_printSource : (printSource h).Keeps := by
  unfold printSource
  refine keeps_bind keeps_front fun origin => ?_
  refine keeps_bind keeps_front fun field => ?_
  refine keeps_bind keeps_front fun entry => ?_
  exact keeps_bind keeps_asString fun _ => keeps_ret

theorem keeps_printFrom : (printFrom h).Keeps := by
  unfold printFrom
  refine keeps_bind keeps_get fun value => ?_
  refine keeps_bind keeps_type fun _ => ?_
  refine keeps_bind keeps_get fun sources => ?_
  exact keeps_forM fun _ => keeps_printSource

theorem keeps_setFrom : (setFrom h).Keeps := by
  unfold setFrom
  refine keeps_bind keeps_get fun _ => ?_
  refine keeps_bind keeps_type fun type => ?_
  split
  · exact keeps_ret
  · refine keeps_bind ?_ fun _ => keeps_ret
    exact keeps_forM fun _ => keeps_printFrom

/-- The rules are printed; none is stored. -/
theorem keeps_setRules : (setRules h).Keeps := by
  unfold setRules
  refine keeps_bind keeps_front fun itRule => keeps_catching ?_ keeps_ret
  refine keeps_bind keeps_setFrom fun done => ?_
  split
  · exact keeps_ret
  · exact keeps_bind (keeps_bind keeps_get fun _ => keeps_ret) fun _ => keeps_ret

end PolicyRules

namespace Policy

variable {n doc : Node} {key value : Str} {p p' : Policy}

theorem keeps_setRulesAndSelector (spec : Handle) : (setRulesAndSelector spec).Keeps := by
  unfold setRulesAndSelector
  refine keeps_bind keeps_get fun rules => ?_
  refine keeps_bind (keeps_on PolicyRules.keeps_setRules fun _ => rfl) fun _ => ?_
  refine keeps_bind keeps_get fun selector => ?_
  exact keeps_on keeps_ret fun _ => rfl

/-! ## What is reached -/

def metadataName (metadata : Node) : Option Str :=
  if 1 < metadata.size then textOf metadata NAME_KEY else none

/-- The namespace is read after the name. -/
def metadataNamespace (metadata : Node) : Option Str :=
  (metadataName metadata).bind fun _ => textOf metadata NAMESPACE_KEY

def Headed (doc : Node) : Prop :=
  textOf doc API_VERSION_KEY = some API_VERSION_VALUE ∧ textOf doc KIND_KEY = some KIND_VALUE

instance (doc : Node) : Decidable (Headed doc) := inferInstanceAs (Decidable (_ ∧ _))

/-- The entries of a document that are reached. -/
def reachedName (doc : Node) : Option Str :=
  if Headed doc then metadataName (entry doc METADATA_KEY) else none

def reachedNamespace (doc : Node) : Option Str :=
  if Headed doc then metadataNamespace (entry doc METADATA_KEY) else none

def reachedAction (doc : Node) : Option Str :=
  (reachedNamespace doc).bind fun _ => textOf (entry doc SPEC_KEY) ACTION_KEY

/-- Each entry is stored when it is reached. -/
def stored (doc : Node) (p : Policy) : Policy :=
  { p with
    m_name := (reachedName doc).getD p.m_name
    m_namespace := (reachedNamespace doc).getD p.m_namespace
    m_action := ((reachedAction doc).map actionOf).getD p.m_action }

theorem ends_readMetadata (n : Node) (p : Policy) : ∃ r,
    (readMetadata (valid n)).Ends p r
        { p with
          m_name := (textOf n NAME_KEY).getD p.m_name
          m_namespace := ((textOf n NAME_KEY).bind fun _ =>
            textOf n NAMESPACE_KEY).getD p.m_namespace } ∧
      (r = .ok true ↔ ((textOf n NAME_KEY).bind fun _ => textOf n NAMESPACE_KEY).isSome) ∧
      r ≠ .ok false := by
  rcases ends_textAt n NAME_KEY p with ⟨name, hname, hread⟩ | ⟨hname, e, hread⟩
  · rw [hname]
    let named : Policy := { p with m_name := name }
    have hstore : (Attempt.modify fun p : Policy => { p with m_name := name }).Ends p
        (.ok () : Except Failure Unit) named := ⟨rfl, rfl⟩
    rcases ends_textAt n NAMESPACE_KEY named with
      ⟨namespaceName, hnamespace, hnext⟩ | ⟨hnamespace, e, hnext⟩
    · rw [Option.bind_some, hnamespace]
      refine ⟨.ok true, hread.bind (hstore.bind (hnext.bind ?_)), by simp, by simp⟩
      exact ⟨rfl, rfl⟩
    · rw [Option.bind_some, hnamespace]
      exact ⟨.error e, hread.bind (hstore.bind hnext.bind_error), by simp, by simp⟩
  · rw [hname]
    exact ⟨.error e, hread.bind_error, by simp, by simp⟩

theorem ends_setMetadata (n : Node) (p : Policy) : ∃ r,
    (setMetadata (valid n)).Ends p r
        { p with
          m_name := (metadataName n).getD p.m_name
          m_namespace := (metadataNamespace n).getD p.m_namespace } ∧
      (r = .ok true ↔ (metadataNamespace n).isSome) := by
  unfold metadataNamespace metadataName
  rw [setMetadata_eq]
  by_cases hsize : 1 < n.size
  · rw [if_neg (Nat.not_le.mpr hsize), if_pos hsize]
    obtain ⟨r, hread, htrue, _⟩ := ends_readMetadata n p
    obtain ⟨r', hcaught, hsame | ⟨⟨e, he⟩, hfalse⟩⟩ := hread.catching_ret
    · exact ⟨r', hcaught, hsame ▸ htrue⟩
    · refine ⟨r', hcaught, ?_⟩
      rw [← htrue, he, hfalse]
      simp
  · rw [if_pos (Nat.not_lt.mp hsize), if_neg hsize]
    exact ⟨.ok false, ends_ret, by simp⟩

theorem ends_storeAction (action : Str) (p : Policy) : (storeAction action).Ends p
    (.ok (decide (actionOf action ≠ .unknown))) { p with m_action := actionOf action } :=
  (returns_storeAction.mpr ⟨rfl, rfl⟩).ends

theorem ends_setAction (n : Node) (p : Policy) : ∃ r,
    (setAction (valid n)).Ends p r
        { p with m_action := ((textOf n ACTION_KEY).map actionOf).getD p.m_action } ∧
      (r = .ok true ↔
        ∃ action, textOf n ACTION_KEY = some action ∧ actionOf action ≠ .unknown) := by
  rcases ends_textAt n ACTION_KEY p with ⟨action, haction, hread⟩ | ⟨haction, e, hread⟩
  · rw [haction]
    have htry : (((valid n).textAt ACTION_KEY).bind fun action => ret (some action)).Ends p
        (.ok (some action)) p := hread.bind ends_ret
    refine ⟨_, (htry.uncaught fun e he => by cases he).bind (ends_storeAction action p), ?_⟩
    simp
  · rw [haction]
    have htry : (((valid n).textAt ACTION_KEY).bind fun action => ret (some action)).Ends p
        (.error e) p := hread.bind_error
    obtain ⟨r, hcaught, rfl | ⟨_, rfl⟩⟩ := htry.catching_ret (a := none)
    · exact ⟨.error e, hcaught.bind_error, by simp⟩
    · exact ⟨.ok false, hcaught.bind ends_ret, by simp⟩

theorem ends_setSpec (n : Node) (p : Policy) : ∃ r,
    (setSpec (valid n)).Ends p r
        { p with m_action := ((textOf n ACTION_KEY).map actionOf).getD p.m_action } ∧
      ∀ b, r = .ok b →
        (b = true ↔ ∃ action, textOf n ACTION_KEY = some action ∧ actionOf action ≠ .unknown) := by
  obtain ⟨r, hset, htrue⟩ := ends_setAction n p
  rcases r with e | _ | _
  · exact ⟨.error e, hset.bind_error, by simp⟩
  · refine ⟨.ok false, hset.bind ends_ret, fun b hb => ?_⟩
    rw [← htrue]
    cases hb
    simp
  · have hrules := (keeps_setRulesAndSelector (valid n)).ends (s :=
      { p with m_action := ((textOf n ACTION_KEY).map actionOf).getD p.m_action })
    rw [← htrue]
    cases hresult : (setRulesAndSelector (valid n)
        { p with m_action := ((textOf n ACTION_KEY).map actionOf).getD p.m_action }).result with
    | error e =>
      rw [hresult] at hrules
      exact ⟨.error e, hset.bind hrules.bind_error, by simp⟩
    | ok u =>
      rw [hresult] at hrules
      exact ⟨.ok true, hset.bind (hrules.bind ends_ret), by simp⟩

theorem keeps_checkField : (checkField n key value).Keeps := by
  unfold checkField
  refine keeps_bind keeps_subscript fun _ => keeps_bind keeps_asString fun _ => ?_
  split
  · exact keeps_ret
  · refine keeps_bind keeps_subscript fun _ => ?_
    exact keeps_bind keeps_asString fun _ => keeps_ret

theorem ends_checkField (hkey : Named key) {m : Node} :
    (checkField n key value).Ends p (.ok (some m)) p' ↔
      textOf n key = some value ∧ m = n ∧ p' = p := by
  constructor
  · intro h
    have hkeeps : p' = p := h.2.symm.trans (keeps_checkField p)
    simp only [checkField, bind_eq, pure_eq, ends_bind_ok, ends_subscript_ok, ends_asString_ok,
      valid.injEq] at h
    obtain ⟨_, _, ⟨hscalar, rfl, rfl⟩, found, _, ⟨hfound, rfl⟩, hrest⟩ := h
    rw [lookup_toPairs hkey] at hfound
    split at hrest
    · rename_i heq
      subst heq
      have hfield := getD_eq_scalar.mp hfound
      rw [withKey_of_field hfield] at hrest
      obtain ⟨hm, _⟩ := ends_ret_iff.mp hrest
      cases hm
      exact ⟨textOf_eq_some.mpr hfield, rfl, hkeeps⟩
    · simp [ends_bind_ok] at hrest
  · intro h
    obtain ⟨htext, rfl, rfl⟩ := h
    exact ((returns_checkField hkey).mpr ⟨textOf_eq_some.mp htext, rfl, rfl⟩).ends

theorem ends_checked {rest : Node → Attempt Failure Policy Bool} {r : Except Failure Bool}
    (hkey : Named key) (htext : textOf n key = some value) (hrest : (rest n).Ends p r p') :
    ((checkField n key value).bind fun checked => match checked with
      | none => ret false
      | some policy => rest policy).Ends p r p' :=
  ((ends_checkField hkey).mpr ⟨htext, rfl, rfl⟩).bind hrest

theorem ends_refused {rest : Node → Attempt Failure Policy Bool} (hkey : Named key)
    (htext : textOf n key ≠ some value) :
    ∃ r, ((checkField n key value).bind fun checked => match checked with
      | none => ret false
      | some policy => rest policy).Ends p r p ∧ r ≠ .ok true := by
  have hcheck : (checkField n key value).Ends p _ p := keeps_checkField.ends
  cases hresult : (checkField n key value p).result with
  | error e =>
    rw [hresult] at hcheck
    exact ⟨.error e, hcheck.bind_error, by simp⟩
  | ok checked =>
    rw [hresult] at hcheck
    cases checked with
    | none => exact ⟨.ok false, hcheck.bind ends_ret, by simp⟩
    | some m => exact absurd ((ends_checkField hkey).mp hcheck).1 htext

/-- Some action is reached, and it is one of the three. -/
def Accepts (doc : Node) : Prop :=
  ∃ action, reachedAction doc = some action ∧ actionOf action ≠ .unknown

theorem ends_setContents (hheaded : Headed doc) (p : Policy) : ∃ r,
    (setContents doc).Ends p r (stored doc p) ∧ ∀ b, r = .ok b → (b = true ↔ Accepts doc) := by
  have hscalar := notScalar_of_field (textOf_eq_some.mp hheaded.1)
  have hmetadata : (doc.subscript METADATA_KEY).Ends p
      (.ok (doc.withKey METADATA_KEY, entry doc METADATA_KEY)) p :=
    ((returns_subscript (by decide)).mpr ⟨hscalar, rfl, rfl⟩).ends
  have hspec : ∀ p : Policy, ((doc.withKey METADATA_KEY).subscript SPEC_KEY).Ends p
      (.ok ((doc.withKey METADATA_KEY).withKey SPEC_KEY, entry doc SPEC_KEY)) p := by
    intro p
    refine ((returns_subscript (by decide)).mpr ⟨notScalar_withKey, ?_, rfl⟩).ends
    rw [field_withKey (by decide) (by decide), entry]
  unfold Accepts stored reachedAction reachedNamespace reachedName
  simp only [if_pos hheaded]
  obtain ⟨r, hset, htrue⟩ := ends_setMetadata (entry doc METADATA_KEY) p
  cases hspace : metadataNamespace (entry doc METADATA_KEY) with
  | none =>
    rw [hspace] at hset htrue
    have hne : r ≠ .ok true := fun hr => by cases htrue.mp hr
    rcases r with e | _ | _
    · exact ⟨.error e, hmetadata.bind hset.bind_error, by simp⟩
    · exact ⟨.ok false, hmetadata.bind (hset.bind ends_ret), by simp⟩
    · exact absurd rfl hne
  | some namespaceName =>
    rw [hspace] at hset htrue
    obtain rfl : r = .ok true := htrue.mpr rfl
    obtain ⟨r, hlast, hdecides⟩ := ends_setSpec (entry doc SPEC_KEY)
      { p with
        m_name := (metadataName (entry doc METADATA_KEY)).getD p.m_name
        m_namespace := namespaceName }
    exact ⟨r, hmetadata.bind (hset.bind ((hspec _).bind hlast)), hdecides⟩

theorem not_headed (hheaded : ¬ Headed doc) : stored doc p = p ∧ ¬ Accepts doc := by
  unfold Accepts stored reachedAction reachedNamespace reachedName
  simp only [if_neg hheaded]
  simp

theorem ends_setDocument (doc : Node) (p : Policy) : ∃ r,
    (setDocument doc).Ends p r (stored doc p) ∧ ∀ b, r = .ok b → (b = true ↔ Accepts doc) := by
  by_cases hheaded : Headed doc
  · obtain ⟨r, hends, hdecides⟩ := ends_setContents hheaded p
    refine ⟨r, ends_checked (by decide) hheaded.1 ?_, hdecides⟩
    exact ends_checked (by decide) hheaded.2 hends
  · obtain ⟨hstored, haccepts⟩ := not_headed (p := p) hheaded
    have hrefused : ∃ r, (setDocument doc).Ends p r p ∧ r ≠ .ok true := by
      by_cases hversion : textOf doc API_VERSION_KEY = some API_VERSION_VALUE
      · have hkind : textOf doc KIND_KEY ≠ some KIND_VALUE := fun hkind => hheaded ⟨hversion, hkind⟩
        obtain ⟨r, hends, hne⟩ := ends_refused (by decide) hkind (p := p)
        exact ⟨r, ends_checked (by decide) hversion hends, hne⟩
      · exact ends_refused (by decide) hversion
    obtain ⟨r, hends, hne⟩ := hrefused
    rw [hstored]
    refine ⟨r, hends, fun b hb => ?_⟩
    cases b with
    | false => simp [haccepts]
    | true => exact absurd hb hne

/-- The document in a text; `none` where the parser throws. -/
def parsed (load : Str → Option Node) (policyData : Str) : Option Node :=
  load (policyData.takeWhile (· ≠ 0))

theorem ends_setPolicy_none {load : Str → Option Node} {policyData : Str}
    (hparsed : parsed load policyData = none) (p : Policy) :
    (setPolicy load policyData).Ends p (.ok false) p := by
  have hload : (YAML.Load load (policyData.takeWhile (· ≠ 0))).Ends p
      (.error .parserException) p := by
    unfold parsed at hparsed
    rw [YAML.Load, hparsed]
    exact ends_throw
  have htry : ((YAML.Load load (policyData.takeWhile (· ≠ 0))).bind fun policy =>
      ret (some policy)).Ends p (.error .parserException) p := hload.bind_error
  exact (htry.caught rfl ends_ret).bind ends_ret

theorem ends_setPolicy {load : Str → Option Node} {policyData : Str}
    (hparsed : parsed load policyData = some doc) (p : Policy) : ∃ r,
    (setPolicy load policyData).Ends p r (stored doc p) ∧
      ∀ b, r = .ok b → (b = true ↔ Accepts doc) := by
  have hload : (YAML.Load load (policyData.takeWhile (· ≠ 0))).Ends p (.ok doc) p := by
    unfold parsed at hparsed
    rw [YAML.Load, hparsed]
    exact ends_ret
  have htry : ((YAML.Load load (policyData.takeWhile (· ≠ 0))).bind fun policy =>
      ret (some policy)).Ends p (.ok (some doc)) p := hload.bind ends_ret
  obtain ⟨r, hends, hdecides⟩ := ends_setDocument doc p
  exact ⟨r, (htry.uncaught fun e he => by cases he).bind hends, hdecides⟩

/-! ## The header grammar -/

structure Header (doc : Node) (name namespaceName action : Str) : Prop where
  apiVersion : doc.field API_VERSION_KEY = some (.scalar API_VERSION_VALUE)
  kind : doc.field KIND_KEY = some (.scalar KIND_VALUE)
  metadata : ∃ metadata, doc.field METADATA_KEY = some metadata ∧
    metadata.field NAME_KEY = some (.scalar name) ∧
    metadata.field NAMESPACE_KEY = some (.scalar namespaceName)
  spec : ∃ spec, doc.field SPEC_KEY = some spec ∧ spec.field ACTION_KEY = some (.scalar action)
  known : action ∈ [text "ALLOW", text "DENY", text "AUDIT"]

theorem mem_definedPairs {pairs : List (Node × Node)} {v : Str}
    (h : lookup pairs key = some (.scalar v)) : (.scalar key, .scalar v) ∈ definedPairs pairs := by
  obtain ⟨⟨k, x⟩, hfind, hx⟩ := Option.map_eq_some_iff.mp h
  have hmem := List.mem_of_find?_eq_some hfind
  have hequals := List.find?_some hfind
  change k.equals key = true at hequals
  cases k with
  | scalar k =>
    cases of_decide_eq_true hequals
    cases hx
    exact List.mem_filter.mpr ⟨hmem, rfl⟩
  | _ => cases hequals

/-- Two entries are enough for the size that is asked for. -/
theorem one_lt_size {other v w : Str} (hne : key ≠ other) (hv : n.field key = some (.scalar v))
    (hw : n.field other = some (.scalar w)) : 1 < n.size := by
  obtain ⟨pairs, rfl⟩ := isMap_of_field hv
  have hfirst : (.scalar key, .scalar v) ∈ definedPairs pairs := mem_definedPairs hv
  have hsecond : (.scalar other, .scalar w) ∈ definedPairs pairs := mem_definedPairs hw
  show 1 < (definedPairs pairs).length
  match hpairs : definedPairs pairs with
  | [] =>
    rw [hpairs] at hfirst
    cases hfirst
  | [p] =>
    rw [hpairs, List.mem_singleton] at hfirst hsecond
    cases hfirst.trans hsecond.symm
    exact absurd rfl hne
  | p :: q :: rest => simp

theorem textOf_entry {inner v : Str} : textOf (entry doc key) inner = some v ↔
    ∃ m, doc.field key = some m ∧ m.field inner = some (.scalar v) := by
  unfold entry
  cases hfield : doc.field key with
  | none => simp [textOf_undefined]
  | some m => simp [textOf_eq_some]

theorem reached_iff {name namespaceName action : Str} : Header doc name namespaceName action ↔
    reachedName doc = some name ∧ reachedNamespace doc = some namespaceName ∧
      reachedAction doc = some action ∧ actionOf action ≠ .unknown := by
  constructor
  · intro h
    have hheaded : Headed doc := ⟨textOf_eq_some.mpr h.apiVersion, textOf_eq_some.mpr h.kind⟩
    obtain ⟨metadata, hmetadata, hname, hnamespace⟩ := h.metadata
    have hentry : entry doc METADATA_KEY = metadata := by rw [entry, hmetadata, Option.getD_some]
    have hreached : metadataName metadata = some name := by
      rw [metadataName, if_pos (one_lt_size (by decide) hname hnamespace), textOf_eq_some]
      exact hname
    have hspace : metadataNamespace metadata = some namespaceName := by
      rw [metadataNamespace, hreached, Option.bind_some, textOf_eq_some]
      exact hnamespace
    unfold reachedAction reachedNamespace reachedName
    simp only [if_pos hheaded, hentry, hreached, hspace, Option.bind_some, true_and]
    exact ⟨textOf_entry.mpr h.spec, actionOf_ne_unknown.mpr h.known⟩
  · intro h
    obtain ⟨hname, hnamespace, haction, hknown⟩ := h
    have hheaded : Headed doc := by
      by_contra hheaded
      rw [reachedName, if_neg hheaded] at hname
      cases hname
    rw [reachedAction, hnamespace, Option.bind_some] at haction
    rw [reachedName, if_pos hheaded] at hname
    rw [reachedNamespace, if_pos hheaded, metadataNamespace, hname, Option.bind_some] at hnamespace
    rw [metadataName] at hname
    split at hname
    · obtain ⟨metadata, hmetadata, hfield⟩ := textOf_entry.mp hname
      have hentry : entry doc METADATA_KEY = metadata := by
        rw [entry, hmetadata, Option.getD_some]
      rw [hentry, textOf_eq_some] at hnamespace
      exact
        { apiVersion := textOf_eq_some.mp hheaded.1
          kind := textOf_eq_some.mp hheaded.2
          metadata := ⟨metadata, hmetadata, hfield, hnamespace⟩
          spec := textOf_entry.mp haction
          known := actionOf_ne_unknown.mp hknown }
    · cases hname

theorem accepts_iff :
    Accepts doc ↔ ∃ name namespaceName action, Header doc name namespaceName action := by
  constructor
  · intro h
    obtain ⟨action, haction, hknown⟩ := h
    obtain ⟨namespaceName, hnamespace, _⟩ := Option.bind_eq_some_iff.mp haction
    have hname : ∃ name, reachedName doc = some name := by
      unfold reachedNamespace at hnamespace
      unfold reachedName
      split at hnamespace
      · rename_i hheaded
        rw [if_pos hheaded]
        obtain ⟨name, hname, _⟩ := Option.bind_eq_some_iff.mp hnamespace
        exact ⟨name, hname⟩
      · cases hnamespace
    obtain ⟨name, hname⟩ := hname
    exact ⟨name, namespaceName, action, reached_iff.mpr ⟨hname, hnamespace, haction, hknown⟩⟩
  · intro h
    obtain ⟨name, namespaceName, action, hheader⟩ := h
    obtain ⟨_, _, haction, hknown⟩ := reached_iff.mp hheader
    exact ⟨action, haction, hknown⟩

theorem Header.stored {name namespaceName action : Str}
    (h : Header doc name namespaceName action) (p : Policy) : stored doc p =
      { p with m_name := name, m_namespace := namespaceName, m_action := actionOf action } := by
  obtain ⟨hname, hnamespace, haction, _⟩ := reached_iff.mp h
  rw [Policy.stored, hname, hnamespace, haction]
  rfl

/-- Where `setPolicy` returns, it accepts the documents with a full header, and what it stores
is what stands there. -/
theorem setPolicy_accepts_iff (load : Str → Option Node) (policyData : Str) (p : Policy) (b : Bool)
    (hreturns : (setPolicy load policyData p).result = .ok b) :
    (b = true ↔ ∃ doc name namespaceName action, parsed load policyData = some doc ∧
      Header doc name namespaceName action) ∧
    ∀ doc name namespaceName action, parsed load policyData = some doc →
      Header doc name namespaceName action →
        (setPolicy load policyData p).state =
          { p with m_name := name, m_namespace := namespaceName, m_action := actionOf action } ∧
        actionOf action ≠ .unknown := by
  cases hparsed : parsed load policyData with
  | none =>
    have hresult := (ends_setPolicy_none hparsed p).1
    rw [hreturns] at hresult
    cases hresult
    simp
  | some doc =>
    obtain ⟨r, hends, hdecides⟩ := ends_setPolicy hparsed p
    have hr : r = .ok b := hends.1.symm.trans hreturns
    constructor
    · rw [hdecides b hr, accepts_iff]
      simp
    · rintro _ name namespaceName action ⟨⟩ hheader
      rw [hends.2, hheader.stored]
      exact ⟨rfl, (reached_iff.mp hheader).2.2.2⟩

def allowingMetadata : Node :=
  .map [(.scalar NAME_KEY, .scalar (text "web")), (.scalar NAMESPACE_KEY, .scalar (text "shop"))]

def allowingSpec : Node :=
  .map [(.scalar ACTION_KEY, .scalar (text "ALLOW")), (.scalar RULES_KEY, .sequence [.null])]

def allowing : Node :=
  .map [(.scalar API_VERSION_KEY, .scalar API_VERSION_VALUE),
    (.scalar KIND_KEY, .scalar KIND_VALUE), (.scalar METADATA_KEY, allowingMetadata),
    (.scalar SPEC_KEY, allowingSpec)]

theorem header_allowing : Header allowing (text "web") (text "shop") (text "ALLOW") where
  apiVersion := rfl
  kind := rfl
  metadata := ⟨allowingMetadata, rfl, rfl, rfl⟩
  spec := ⟨allowingSpec, rfl, rfl⟩
  known := .head _

theorem setPolicy_accepts_allowing :
    (setPolicy (fun _ => some allowing) (text "kind") {}).state =
      { m_name := text "web", m_namespace := text "shop", m_action := .allow } :=
  ((setPolicy_accepts_iff (fun _ => some allowing) (text "kind") {} true rfl).2 allowing _ _ _ rfl
    header_allowing).1

end Policy

end SGXess
