import SGXessControll.Calls.Simulation

/-!
# Sections under a lock

Data that threads share, and a lock that nothing but their code makes them take. If every
access is made in a section between `lock` and `unlock`, and every section comes to an end,
the threads run as if each section were answered at once.
-/

namespace Calls

set_option autoImplicit false

variable {ι A C R D W E α β : Type}

inductive Locked (A C : Type) where
  | lock
  | unlock
  | access (a : A)
  | other (c : C)
  deriving DecidableEq

structure Guarded (ι D W : Type) where
  data : D
  rest : W
  holder : Option ι := none

/-- The sections of some of the calls, the accesses they are made of, and what each does to
the data as a whole. -/
structure Sections (A C R D : Type) where
  apply : D → A → R → Option D
  body : C → Option (Code A R R)
  effect : D → C → R × D

namespace Sections

variable (S : Sections A C R D)

/-- Nothing keeps a thread without the lock off the data. -/
def respond (M : Machine W ι C R E) (g : Guarded ι D W) (i : ι) (c : Locked A C) (r : R) :
    Option (Guarded ι D W) :=
  match c with
  | .lock => if g.holder.isNone = true then some { g with holder := some i } else none
  | .unlock => some { g with holder := none }
  | .access a => (S.apply g.data a r).map fun data => { g with data }
  | .other c => (M.respond g.rest i c r).map fun rest => { g with rest }

def machine (M : Machine W ι C R E) : Machine (Guarded ι D W) ι (Locked A C) R E :=
  ⟨S.respond M, fun g e => (M.move g.rest e).map fun rest => { g with rest }⟩

/-- The section behind the lock. -/
def closing (m : Code A R R) : Code (Locked A C) R R :=
  (m.embed Locked.access).bind fun r => (Code.ask .unlock).bind fun _ => .ret r

def impl (c : C) : Code (Locked A C) R R :=
  match S.body c with
  | none => .ask (.other c)
  | some m => (Code.ask .lock).bind fun _ => closing m

def start (c : C) : Locked A C :=
  match S.body c with
  | none => .other c
  | some _ => .lock

/-- Whatever its accesses are answered, `m` returns `r` after at most `n` of them and leaves
`d'`; each of them can be answered. -/
inductive Finishes (r : R) (d' : D) : Nat → Code A R R → D → Prop where
  | ret (n : Nat) : Finishes r d' n (.ret r) d'
  | access {n : Nat} {m : Code A R R} {d : D} {a : A} : m.pending = .calling a →
      (∃ r₁ d₁, S.apply d a r₁ = some d₁) →
      (∀ r₁ d₁, S.apply d a r₁ = some d₁ → Finishes r d' n (m.resume r₁) d₁) →
      Finishes r d' (n + 1) m d

/-- The sections do what they are said to do, with at most `n` accesses each. -/
def Sound (n : Nat) : Prop :=
  ∀ c m d, S.body c = some m → S.Finishes (S.effect d c).1 (S.effect d c).2 n m d

section Atomic

variable [DecidableEq R]

/-- The machine on which a section is one answer. -/
def atomic (M : Machine W ι C R E) : Machine (D × W) ι C R E where
  respond v i c r :=
    match S.body c with
    | none => (M.respond v.2 i c r).map fun rest => (v.1, rest)
    | some _ => if r = (S.effect v.1 c).1 then some ((S.effect v.1 c).2, v.2) else none
  move v e := (M.move v.2 e).map fun rest => (v.1, rest)

end Atomic

/-- A thread within a section holds the lock, and has `n` accesses left at most. -/
inductive Within (n : Nat) (data d : D) : Code (Locked A C) R R → R → Prop where
  | intro (m : Code A R R) (r : R) : S.Finishes r d n m data → Within n data d (closing m) r

/-- One thread at most is within a section; outside of all sections the data is what the
answers made of it. -/
def Behind (n : Nat) (inside : ι → Option (Code (Locked A C) R R × R)) (g : Guarded ι D W)
    (v : D × W) : Prop :=
  g.rest = v.2 ∧ match g.holder with
    | none => (∀ i, inside i = none) ∧ g.data = v.1
    | some i => (∀ j, j ≠ i → inside j = none) ∧
        ∃ m r, inside i = some (m, r) ∧ S.Within n g.data v.1 m r

variable {S} {n : Nat} {m : Code A R R} {r : R} {d d' : D}

theorem pending_start (c : C) : (S.impl c).pending = .calling (S.start c) := by
  unfold impl start
  cases S.body c <;> rfl

theorem pending_closing (m : Code A R R) : (closing m : Code (Locked A C) R R).pending =
    match m.pending with
      | .returned _ => .calling .unlock
      | .calling a => .calling (.access a)
      | .undefined => .undefined := by
  rw [closing, Code.pending_bind, Code.pending_embed]
  cases m.pending <;> rfl

theorem resume_closing {a : A} (hm : m.pending = .calling a) (r : R) :
    (closing m : Code (Locked A C) R R).resume r = closing (m.resume r) := by
  rw [closing, Code.resume_bind, Code.pending_embed, hm]
  dsimp only
  rw [Code.resume_embed _ hm]
  rfl

theorem Finishes.cases_pending (h : S.Finishes r d' n m d) : (m = .ret r ∧ d = d') ∨
    ∃ n' a, n = n' + 1 ∧ m.pending = .calling a ∧ (∃ r₁ d₁, S.apply d a r₁ = some d₁) ∧
      ∀ r₁ d₁, S.apply d a r₁ = some d₁ → S.Finishes r d' n' (m.resume r₁) d₁ := by
  cases h with
  | ret => exact .inl ⟨rfl, rfl⟩
  | access hm hcan hnext => exact .inr ⟨_, _, rfl, hm, hcan, hnext⟩

theorem Finishes.mono {n' : Nat} (h : S.Finishes r d' n m d) (hn : n ≤ n') :
    S.Finishes r d' n' m d := by
  induction h generalizing n' with
  | ret => exact .ret _
  | access hm hcan _ ih =>
    cases n' with
    | zero => cases hn
    | succ n' => exact .access hm hcan fun r₁ d₁ h₁ => ih r₁ d₁ h₁ (Nat.le_of_succ_le_succ hn)

section Implements

variable {M : Machine W ι C R E} {inside : ι → Option (Code (Locked A C) R R × R)}
variable {g g' : Guarded ι D W} {v : D × W} {i : ι} {c : C} {r' : R}

theorem Behind.held (h : S.Behind n inside g v) {m : Code (Locked A C) R R}
    (hi : inside i = some (m, r)) : g.rest = v.2 ∧ g.holder = some i ∧
      (∀ j, j ≠ i → inside j = none) ∧ S.Within n g.data v.1 m r := by
  obtain ⟨hrest, hholder⟩ := h
  cases hg : g.holder with
  | none =>
    rw [hg] at hholder
    rw [hholder.1 i] at hi
    cases hi
  | some j =>
    rw [hg] at hholder
    obtain ⟨hothers, m', r', hj, hwithin⟩ := hholder
    by_cases hij : i = j
    · subst hij
      rw [hi] at hj
      cases hj
      exact ⟨hrest, rfl, hothers, hwithin⟩
    · rw [hothers i hij] at hi
      cases hi

theorem Behind.free (h : S.Behind n inside g v) (hg : g.holder.isNone = true) :
    g.rest = v.2 ∧ (∀ i, inside i = none) ∧ g.data = v.1 := by
  obtain ⟨hrest, hholder⟩ := h
  rw [Option.isNone_iff_eq_none.mp hg] at hholder
  exact ⟨hrest, hholder⟩

variable [DecidableEq ι]

theorem Behind.stay {m : Code (Locked A C) R R} {c' : Locked A C} (h : S.Behind n inside g v)
    (hi : inside i = some (m, r)) (hm : m.pending = .calling c')
    (hg : S.respond M g i c' r' = some g') : ∃ rest, Machine.Left r (m.resume r') rest ∧
      S.Behind n (Function.update inside i rest) g' v := by
  obtain ⟨hrest, hheld, hothers, hwithin⟩ := h.held hi
  have hupdate : ∀ rest j, j ≠ i → Function.update inside i rest j = none := by
    intro rest j hj
    rw [Function.update_of_ne hj]
    exact hothers j hj
  obtain ⟨m, _, hfinishes⟩ := hwithin
  rw [pending_closing] at hm
  rcases hfinishes.cases_pending with ⟨rfl, hdata⟩ | ⟨n', a, rfl, ha, _, hnext⟩
  · cases hm
    cases hg
    refine ⟨none, .done, hrest, fun j => ?_, hdata⟩
    by_cases hj : j = i
    · rw [hj, Function.update_self]
    · exact hupdate _ j hj
  · rw [ha] at hm
    cases hm
    obtain ⟨data, hdata, rfl⟩ := Option.map_eq_some_iff.mp hg
    refine ⟨_, .more _, hrest, ?_⟩
    simp only [hheld]
    refine ⟨hupdate _, _, r, Function.update_self .., ?_⟩
    rw [resume_closing ha]
    exact .intro _ r ((hnext r' data hdata).mono (Nat.le_succ n'))

variable [DecidableEq R]

/-- Taking the lock is the whole section. -/
theorem Behind.enter (hsound : S.Sound n) (h : S.Behind n inside g v) (hi : inside i = none)
    (hg : S.respond M g i (S.start c) r' = some g') : ∃ r v' rest,
      (S.atomic M).respond v i c r = some v' ∧ Machine.Left r ((S.impl c).resume r') rest ∧
        S.Behind n (Function.update inside i rest) g' v' := by
  unfold start at hg
  simp only [atomic]
  cases hbody : S.body c with
  | none =>
    rw [hbody] at hg
    obtain ⟨rest, hrest, rfl⟩ := Option.map_eq_some_iff.mp hg
    refine ⟨r', (v.1, rest), none, ?_, ?_, rfl, ?_⟩
    · rw [← h.1, hrest]
      rfl
    · rw [impl, hbody]
      exact .done
    · have hsame : Function.update inside i none = inside := by
        rw [← hi, Function.update_eq_self]
      rw [hsame]
      exact h.2
  | some m =>
    rw [hbody] at hg
    obtain ⟨hfree, hheld⟩ := Option.ite_none_right_eq_some.mp hg
    cases hheld
    obtain ⟨hrest, hnone, hdata⟩ := h.free hfree
    refine ⟨(S.effect v.1 c).1, ((S.effect v.1 c).2, v.2), some (closing m, (S.effect v.1 c).1),
      if_pos rfl, ?_, hrest, ?_, _, _, Function.update_self .., ?_⟩
    · rw [impl, hbody]
      exact .more _
    · intro j hj
      rw [Function.update_of_ne hj]
      exact hnone j
    · rw [hdata]
      exact .intro m _ (hsound c m v.1 hbody)

omit [DecidableEq ι] in
theorem Behind.moved {e : E} (h : S.Behind n inside g v) (hg : (S.machine M).move g e = some g') :
    ∃ v', (S.atomic M).Drifts v v' ∧ S.Behind n inside g' v' := by
  obtain ⟨rest, hrest, rfl⟩ := Option.map_eq_some_iff.mp hg
  have hmove : (S.atomic M).move v e = some (v.1, rest) := by
    simp only [atomic]
    rw [← h.1, hrest]
    rfl
  exact ⟨_, .single ⟨e, hmove⟩, rfl, h.2⟩

theorem Sound.implements (hsound : S.Sound n) (M : Machine W ι C R E) :
    (S.machine M).Implements (S.atomic M) S.impl S.start (S.Behind n) where
  starts := pending_start
  enter h hi hg := h.enter hsound hi hg
  stay h hi hm hg := h.stay hi hm hg
  waits h hi := by
    obtain ⟨_, _, _, ⟨m, _, hfinishes⟩⟩ := h.held hi
    rw [pending_closing]
    rcases hfinishes.cases_pending with ⟨rfl, _⟩ | ⟨_, a, _, ha, _⟩
    · exact ⟨_, rfl⟩
    · exact ⟨_, by rw [ha]⟩
  moved h hg := h.moved hg

end Implements

section Runs

variable {M : Machine W ι C R E} [DecidableEq ι] {i : ι}

/-- A configuration from which nobody has begun a section. -/
abbrev opened (S : Sections A C R D) (code : ι → Code C R α) (d : D) (w : W) :
    Config (Guarded ι D W) ι (Locked A C) R α :=
  ⟨fun i => (code i).expand S.impl, ⟨d, w, none⟩⟩

variable {code : ι → Code C R α} {w : W} {t : Config (Guarded ι D W) ι (Locked A C) R α}

omit [DecidableEq ι] in
theorem Within.exists_closing {data : D} {m' : Code (Locked A C) R R}
    (h : S.Within n data d m' r) : ∃ m, m' = closing m ∧ S.Finishes r d n m data := by
  obtain ⟨m, _, hfinishes⟩ := h
  exact ⟨m, rfl, hfinishes⟩

omit [DecidableEq ι] in
theorem pending_outside {m : Code C R α} {m' : Code (Locked A C) R α} {c : Locked A C}
    (h : Machine.Stands S.impl m none m') (hc : m'.pending = .calling c) :
    ∃ c₀, m.pending = .calling c₀ ∧ c = S.start c₀ := by
  cases h
  rw [Code.pending_expand pending_start] at hc
  cases hm : m.pending with
  | returned a => rw [hm] at hc; cases hc
  | undefined => rw [hm] at hc; cases hc
  | calling c₀ =>
    rw [hm] at hc
    cases hc
    exact ⟨c₀, rfl, rfl⟩

omit [DecidableEq ι] in
/-- A call that is no part of a section is made where the thread would make it without locks. -/
theorem Behind.other {inside : ι → Option (Code (Locked A C) R R × R)} {g : Guarded ι D W}
    {v : D × W} {m : Code C R α} {m' : Code (Locked A C) R α} {c : C} (h : S.Behind n inside g v)
    (hstands : Machine.Stands S.impl m (inside i) m') (hc : m'.pending = .calling (.other c)) :
    m.pending = .calling c := by
  cases hin : inside i with
  | none =>
    rw [hin] at hstands
    obtain ⟨c₀, hm, hstart⟩ := pending_outside hstands hc
    unfold start at hstart
    cases hbody : S.body c₀ with
    | none =>
      rw [hbody] at hstart
      cases hstart
      exact hm
    | some _ =>
      rw [hbody] at hstart
      cases hstart
  | some x =>
    obtain ⟨m₁, r⟩ := x
    obtain ⟨_, _, _, hwithin⟩ := h.held hin
    rw [hin] at hstands
    cases hstands with
    | inside m n₀ r =>
      obtain ⟨m₂, rfl, hfinishes⟩ := hwithin.exists_closing
      rw [Code.pending_bind, pending_closing] at hc
      rcases hfinishes.cases_pending with ⟨rfl, _⟩ | ⟨_, a, _, ha, _⟩
      · cases hc
      · rw [ha] at hc
        cases hc

/-- From within a section a thread gets to its end by itself. -/
theorem Finishes.leaves {f : R → Code (Locked A C) R α} (h : S.Finishes r d' n m d) :
    ∀ t : Config (Guarded ι D W) ι (Locked A C) R α, t.code i = (closing m).bind f →
      t.world.data = d → ∃ es u, es.length ≤ n + 1 ∧ Machine.OnlyBy i es ∧
        (S.machine M).run t es = some u ∧ u.world.holder = none ∧ u.world.data = d' := by
  induction h with
  | ret n =>
    intro t hcode hdata
    have hpending : (t.code i).pending = .calling .unlock := by
      rw [hcode]
      rfl
    refine ⟨[.reply i r], ⟨Function.update t.code i ((t.code i).resume r),
      { t.world with holder := none }⟩, ?_, ?_, ?_, rfl, hdata⟩
    · exact Nat.succ_le_succ (Nat.zero_le n)
    · intro e he
      exact ⟨r, List.mem_singleton.mp he⟩
    · simp only [Machine.run, Machine.step, hpending, machine, respond]
      rfl
  | @access n m d a hm hcan _ ih =>
    intro t hcode hdata
    obtain ⟨r₁, d₁, happly⟩ := hcan
    have hpending : (t.code i).pending = .calling (.access a) := by
      rw [hcode, Code.pending_bind, pending_closing, hm]
    have hstep : (S.machine M).step t (.reply i r₁) = some
        ⟨Function.update t.code i ((t.code i).resume r₁), { t.world with data := d₁ }⟩ := by
      simp only [Machine.step, hpending, machine, respond]
      rw [hdata, happly]
      rfl
    have hresume : (t.code i).resume r₁ = (closing (m.resume r₁)).bind f := by
      rw [hcode, Code.resume_bind, pending_closing, hm]
      dsimp only
      rw [resume_closing hm]
    obtain ⟨es, u, hlen, hby, hrun, hfree, hdone⟩ := ih r₁ d₁ happly
      ⟨Function.update t.code i ((t.code i).resume r₁), { t.world with data := d₁ }⟩
      ((Function.update_self ..).trans hresume) rfl
    refine ⟨.reply i r₁ :: es, u, Nat.succ_le_succ hlen, ?_, ?_, hfree, hdone⟩
    · intro e he
      rcases List.mem_cons.mp he with rfl | he
      · exact ⟨r₁, rfl⟩
      · exact hby e he
    · rw [Machine.run, hstep]
      exact hrun

variable [DecidableEq R]

/-- The threads run as on the machine on which a section is one answer. -/
theorem Sound.reaches (hsound : S.Sound n)
    (ht : (S.machine M).Reaches Machine.any (S.opened code d w) t) :
    ∃ u inside, (S.atomic M).Reaches Machine.any ⟨code, (d, w)⟩ u ∧
      S.Behind n inside t.world u.world ∧
      ∀ i, Machine.Stands S.impl (u.code i) (inside i) (t.code i) := by
  have hopened : S.Behind n (fun _ => none) (S.opened code d w).world (d, w) :=
    ⟨rfl, fun _ => rfl, rfl⟩
  exact (hsound.implements M).reaches hopened ht

/-- Only the thread that has the lock is about to access the data or to unlock, and what it is
about to do with the data can be done. -/
theorem Sound.exclusive (hsound : S.Sound n)
    (ht : (S.machine M).Reaches Machine.any (S.opened code d w) t) {c : Locked A C}
    (hc : (t.code i).pending = .calling c) :
    (c = .unlock → t.world.holder = some i) ∧
      ∀ a, c = .access a →
        t.world.holder = some i ∧ ∃ r d', S.apply t.world.data a r = some d' := by
  obtain ⟨u, inside, _, hbehind, hstands⟩ := hsound.reaches ht
  have hi := hstands i
  cases hin : inside i with
  | none =>
    rw [hin] at hi
    obtain ⟨c₀, _, rfl⟩ := pending_outside hi hc
    unfold start
    cases S.body c₀ <;> exact ⟨nofun, nofun⟩
  | some x =>
    obtain ⟨m', r⟩ := x
    obtain ⟨_, hheld, _, hwithin⟩ := hbehind.held hin
    rw [hin] at hi
    generalize u.code i = m₀ at hi
    generalize t.code i = m' at hi hc
    cases hi with
    | inside m₀ n₀ r =>
      obtain ⟨m, rfl, hfinishes⟩ := hwithin.exists_closing
      rw [Code.pending_bind, pending_closing] at hc
      refine ⟨fun _ => hheld, fun a ha => ⟨hheld, ?_⟩⟩
      rcases hfinishes.cases_pending with ⟨rfl, _⟩ | ⟨_, a', _, ha', hcan, _⟩
      · cases hc
        cases ha
      · rw [ha'] at hc
        cases hc
        cases ha
        exact hcan

/-- The thread that has the lock gives it back by itself, in at most as many answers as its
section can have accesses, and the one to unlock. -/
theorem Sound.leaves (hsound : S.Sound n)
    (ht : (S.machine M).Reaches Machine.any (S.opened code d w) t) (hi : t.world.holder = some i) :
    ∃ es u, es.length ≤ n + 1 ∧ Machine.OnlyBy i es ∧ (S.machine M).run t es = some u ∧
      u.world.holder = none := by
  obtain ⟨u, inside, _, ⟨_, hholder⟩, hstands⟩ := hsound.reaches ht
  rw [hi] at hholder
  obtain ⟨_, m', r, hin, hwithin⟩ := hholder
  obtain ⟨m, rfl, hfinishes⟩ := hwithin.exists_closing
  have hstand := hstands i
  rw [hin] at hstand
  generalize u.code i = m₀ at hstand
  generalize hcode : t.code i = m₁ at hstand
  cases hstand with
  | inside m₀ n₀ r =>
    obtain ⟨es, v, hlen, hby, hrun, hfree, _⟩ := hfinishes.leaves t hcode rfl
    exact ⟨es, v, hlen, hby, hrun, hfree⟩

omit [DecidableEq R] in
theorem run_lock (hfree : t.world.holder = none) (hc : (t.code i).pending = .calling .lock)
    (r : R) : (S.machine M).run t [.reply i r] = some
      ⟨Function.update t.code i ((t.code i).resume r), { t.world with holder := some i }⟩ := by
  simp only [Machine.run, Machine.step, hc, machine, respond, hfree]
  rfl

/-- A thread that waits for the lock can have it once the holder, if there is one, has made the
few steps it has left. -/
theorem Sound.obtains (hsound : S.Sound n) (r : R)
    (ht : (S.machine M).Reaches Machine.any (S.opened code d w) t)
    (hc : (t.code i).pending = .calling .lock) : ∃ es u, es.length ≤ n + 1 ∧
      (∀ e ∈ es, ∃ j r, e = .reply j r ∧ t.world.holder = some j) ∧
      (S.machine M).run t (es ++ [.reply i r]) = some u ∧ u.world.holder = some i := by
  cases hheld : t.world.holder with
  | none => exact ⟨[], _, Nat.zero_le _, nofun, run_lock hheld hc r, rfl⟩
  | some j =>
    have hne : i ≠ j := by
      rintro rfl
      obtain ⟨u, inside, _, ⟨_, hholder⟩, hstands⟩ := hsound.reaches ht
      rw [hheld] at hholder
      obtain ⟨_, m', r', hin, hwithin⟩ := hholder
      obtain ⟨m, rfl, hfinishes⟩ := hwithin.exists_closing
      have hstand := hstands i
      rw [hin] at hstand
      generalize u.code i = m₀ at hstand
      generalize t.code i = m₁ at hstand hc
      cases hstand with
      | inside m₀ n₀ r =>
        rw [Code.pending_bind, pending_closing] at hc
        rcases hfinishes.cases_pending with ⟨rfl, _⟩ | ⟨_, a, _, ha, _, _⟩
        · cases hc
        · rw [ha] at hc
          cases hc
    obtain ⟨es, u, hlen, hby, hrun, hfree⟩ := hsound.leaves ht hheld
    have hwaits : (u.code i).pending = .calling .lock := by
      rw [Machine.run_by hby hne hrun, hc]
    refine ⟨es, _, hlen, fun e he => ?_, Machine.run_append hrun (run_lock hfree hwaits r), rfl⟩
    obtain ⟨r', hr'⟩ := hby e he
    exact ⟨j, r', hr', rfl⟩

end Runs

end Sections

end Calls
