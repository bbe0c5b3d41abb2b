import Confine.Confinement.Registry
import Mathlib.Logic.Equiv.Basic

/-!
# The history of registries

Registries are used one call after the other (`RegistryCall`), with whatever tokens and capabilities somebody has kept:
old ones, copies, those of other units or of other registries.  What they do is compared with what the answers so far
say, and with nothing else: `RegistryEvent.liveToken?` reads off them which token is in force, `RegistryEvent.logged`
what has been decided since that token was given out.

Main statement: `Confinements.lawful_ofCalls`.  After any calls whatever, the registries answer as their history says, a release
gives exactly the decisions of its own confinement and revokes its capabilities for good, failures change nothing, and
calls that concern different units commute.
-/

namespace Confine

/-! ### Calls -/

inductive RegistryCall where
  | confine (r : RegistryId) (u : UnitId) (grants : GrantSet)
  | capability (r : RegistryId) (t : ConfinementToken)
  | check (c : Capability) (p : Permission)
  | record (c : Capability) (p : Permission) (granted : Bool)
  | release (r : RegistryId) (t : ConfinementToken) (u : UnitId)

/-- What an operation comes to. -/
inductive RegistryAnswer where
  | token (t : ConfinementToken)
  | capability (c : Capability)
  | decided (granted : Bool)
  | recorded
  | log (ds : List Decision)
  | failed (fault : ConfinementFault)
  deriving DecidableEq

abbrev RegistryEvent := RegistryCall × RegistryAnswer

namespace RegistryCall

def perform (s : Confinements) : RegistryCall → RegistryAnswer × Confinements
  | confine r u grants =>
    match s.confine r u grants with
    | .ok (t, s') => (.token t, s')
    | .error fault => (.failed fault, s)
  | capability r t =>
    match s.capability r t with
    | .ok c => (.capability c, s)
    | .error fault => (.failed fault, s)
  | check c p => (.decided (s.check c p).1, (s.check c p).2)
  | record c p granted => (.recorded, s.record c p granted)
  | release r t u =>
    match s.release r t u with
    | .ok (ds, s') => (.log ds, s')
    | .error fault => (.failed fault, s)

def performAll (s : Confinements) (calls : List RegistryCall) : Confinements :=
  calls.foldl (fun s call => (call.perform s).2) s

/-- The unit that an operation concerns. A check and a decision concern the unit that the capability
belongs to. -/
def Concerns (s : Confinements) (u : UnitId) : RegistryCall → Prop
  | confine _ v _ | release _ _ v => v = u
  | capability _ t => t.unit = u
  | check c _ | record c _ _ => s.owner? c = some u

end RegistryCall

def RegistryAnswer.renumber (f : Nat → Nat) : RegistryAnswer → RegistryAnswer
  | token t => token ⟨t.unit, f t.nonce⟩
  | capability c => capability ⟨f c.nonce⟩
  | a => a

/-! ### What the history says -/

namespace RegistryEvent

/-- The token of the confinement of a unit that is in force in a registry, where the latest event comes
first: the token that was given out last, unless there has been a release since. -/
def liveToken? (r : RegistryId) (u : UnitId) : List RegistryEvent → Option ConfinementToken
  | [] => none
  | (.confine r' u' _, .token t) :: before =>
    if r' = r ∧ u' = u then some t else liveToken? r u before
  | (.release r' _ u', .log _) :: before =>
    if r' = r ∧ u' = u then none else liveToken? r u before
  | _ :: before => liveToken? r u before

/-- The decision that an event has logged through a capability of a token. -/
def decision? (t : ConfinementToken) : RegistryEvent → Option Decision
  | (.check c p, .decided granted) | (.record c p granted, _) =>
    if c.nonce = t.nonce then some ⟨p, granted⟩ else none
  | _ => none

/-- The decisions that have been logged through capabilities of a token since it was given out, in
order. -/
def logged (t : ConfinementToken) : List RegistryEvent → List Decision
  | [] => []
  | e :: before => if e.2 = .token t then [] else logged t before ++ (decision? t e).toList

/-- Performs operations, and notes what they come to, latest first. -/
def ofCalls (calls : List RegistryCall) : List RegistryEvent × Confinements :=
  calls.foldl (fun h call => ((call, (call.perform h.2).1) :: h.1, (call.perform h.2).2))
    ([], .empty)

end RegistryEvent

open RegistryEvent (liveToken? logged decision?)

namespace Confinements

/-- The confinement of a number is live, and one of a unit in a registry. -/
def IsLive (s : Confinements) (r : RegistryId) (u : UnitId) (n : Nat) : Prop :=
  ∃ e, s.history[n]? = some e ∧ e.live = true ∧ e.registry = r ∧ e.unit = u

/-- A unit has at most one live confinement in a registry. -/
def Single (s : Confinements) : Prop := ∀ r u m n, s.IsLive r u m → s.IsLive r u n → m = n

/-- Two operations come to the same in either order, but for the numbers of confinements that they
make. -/
def Commute (s : Confinements) (a b : RegistryCall) : Prop :=
  ∃ π : Equiv.Perm Nat, (∀ n < s.history.length, π n = n) ∧
    (a.perform (b.perform s).2).1 = (a.perform s).1.renumber π ∧
    (b.perform s).1 = (b.perform (a.perform s).2).1.renumber π ∧
    ∀ n : Nat, (a.perform (b.perform s).2).2.history[π n]? =
      (b.perform (a.perform s).2).2.history[n]?

/-- **The law of registries**, for what has happened and the confinements that there are now. -/
structure Lawful (events : List RegistryEvent) (s : Confinements) : Prop where
  /-- a unit has at most one live confinement in a registry -/
  single : s.Single
  /-- a unit cannot be confined if and only if it is -/
  confine_iff : ∀ r u grants, (∃ fault, s.confine r u grants = .error fault) ↔
    (liveToken? r u events).isSome
  /-- no token is given out twice -/
  fresh : ∀ r u grants t s', s.confine r u grants = .ok (t, s') → t.unit = u ∧
    ∀ e ∈ events, ∀ t', e.2 = .token t' → t'.nonce ≠ t.nonce
  /-- a token gives a capability if and only if it is in force -/
  capability_iff : ∀ r t c, s.capability r t = .ok c ↔
    liveToken? r t.unit events = some t ∧ c.nonce = t.nonce
  /-- a token releases a unit if and only if it is in force for that unit -/
  release_iff : ∀ r t u, (∃ x, s.release r t u = .ok x) ↔
    t.unit = u ∧ liveToken? r u events = some t
  /-- a release gives the decisions of its own confinement, and all its capabilities deny from then on -/
  release_log : ∀ r t u ds s', s.release r t u = .ok (ds, s') → ds = logged t events ∧
    ∀ (later : List RegistryCall) (c : Capability) (p : Permission), c.nonce = t.nonce →
      ((RegistryCall.performAll s' later).check c p).1 = false
  /-- a failure changes nothing -/
  unchanged : ∀ (call : RegistryCall) fault, (call.perform s).1 = .failed fault →
    (call.perform s).2 = s
  /-- what concerns different units commutes -/
  commute : ∀ (a b : RegistryCall) (u v : UnitId), a.Concerns s u → b.Concerns s v → u ≠ v →
    s.Commute a b

attribute [local simp] liveToken? logged decision? RegistryCall.perform

/-! ### Live confinements -/

variable {s s' : Confinements} {r r' : RegistryId} {u u' v : UnitId} {n m : Nat}

theorem isLive_of_live? (h : s.live? r u = some n) : s.IsLive r u n := by
  obtain ⟨hn, hp, -⟩ := List.findIdx?_eq_some_iff_getElem.1 h
  simp only [Bool.and_eq_true, decide_eq_true_eq] at hp
  exact ⟨s.history[n], List.getElem?_eq_getElem hn, hp.1.1, hp.1.2, hp.2⟩

theorem not_isLive_of_live?_eq_none (h : s.live? r u = none) (n : Nat) : ¬ s.IsLive r u n := by
  rintro ⟨e, he, hl, hr, hu⟩
  have hmem := List.mem_of_getElem? he
  have hfalse := List.findIdx?_eq_none_iff.1 h e hmem
  simp [hl, hr, hu] at hfalse

theorem live?_eq_some_iff (hs : s.Single) : s.live? r u = some n ↔ s.IsLive r u n := by
  refine ⟨isLive_of_live?, fun h => ?_⟩
  cases hm : s.live? r u with
  | none => exact absurd h (not_isLive_of_live?_eq_none hm n)
  | some m => rw [hs r u m n (isLive_of_live? hm) h]

/-- Which confinement of a unit is found depends on the live ones only. -/
theorem live?_congr (h : ∀ n, s.IsLive r u n ↔ s'.IsLive r u n) : s'.live? r u = s.live? r u := by
  have first : ∀ {s s' : Confinements} {m n : Nat}, (∀ n, s.IsLive r u n ↔ s'.IsLive r u n) →
      s.live? r u = some m → s'.live? r u = some n → m ≤ n := by
    intro s s' m n h hm hn
    obtain ⟨e, he, hl, hr, hu⟩ := (h n).2 (isLive_of_live? hn)
    obtain ⟨_, _, hmin⟩ := List.findIdx?_eq_some_iff_getElem.1 hm
    by_contra hlt
    obtain ⟨hlen, rfl⟩ := List.getElem?_eq_some_iff.1 he
    exact hmin n (by omega) (by simp [hl, hr, hu])
  cases hm : s.live? r u with
  | none =>
    cases hn : s'.live? r u with
    | none => rfl
    | some n => exact absurd ((h n).2 (isLive_of_live? hn)) (not_isLive_of_live?_eq_none hm n)
  | some m =>
    cases hn : s'.live? r u with
    | none => exact absurd ((h m).1 (isLive_of_live? hm)) (not_isLive_of_live?_eq_none hn m)
    | some n =>
      have hle := first h hm hn
      have hge := first (fun n => (h n).symm) hn hm
      rw [Nat.le_antisymm hle hge]

/-! ### What each operation does -/

theorem confine_eq_ok_iff {grants : GrantSet} {t : ConfinementToken} :
    s.confine r u grants = .ok (t, s') ↔ s.live? r u = none ∧ t = ⟨u, s.history.length⟩ ∧
      s' = ⟨s.history ++ [⟨r, u, grants, [], true⟩]⟩ := by
  unfold confine isConfined
  cases s.live? r u <;> simp [eq_comm]

theorem capability_eq_ok_iff {t : ConfinementToken} {c : Capability} :
    s.capability r t = .ok c ↔ s.live? r t.unit = some t.nonce ∧ c.nonce = t.nonce := by
  unfold capability
  obtain ⟨k⟩ := c
  cases s.live? r t.unit with
  | none => simp
  | some n =>
    by_cases hn : n = t.nonce
    · simp [hn, eq_comm]
    · simp [hn]

theorem release_eq_ok_iff {t : ConfinementToken} {ds : List Decision} :
    s.release r t u = .ok (ds, s') ↔ t.unit = u ∧ s.live? r u = some t.nonce ∧
      ds = s.decisions ⟨t.nonce⟩ ∧
      s' = s.modify t.nonce fun e => { e with log := [], live := false } := by
  unfold release
  cases s.live? r u with
  | none => simp
  | some n =>
    by_cases ht : t.unit = u ∧ n = t.nonce
    · obtain ⟨rfl, rfl⟩ := ht
      simp [eq_comm]
    · simp only [ht, if_false, reduceCtorEq, Option.some.injEq, false_iff]
      exact fun h => ht ⟨h.1, h.2.1⟩

theorem getElem?_modify (k : Nat) (f : Confinement → Confinement) (n : Nat) :
    (s.modify k f).history[n]? = if k = n then s.history[n]?.map f else s.history[n]? := by
  unfold modify
  rw [List.getElem?_modify]
  split <;> simp

theorem isLive_confine (grants : GrantSet) :
    IsLive ⟨s.history ++ [⟨r, u, grants, [], true⟩]⟩ r' u' n ↔
      s.IsLive r' u' n ∨ n = s.history.length ∧ r = r' ∧ u = u' := by
  unfold IsLive
  rcases Nat.lt_trichotomy n s.history.length with hn | rfl | hn
  · simp [List.getElem?_append_left hn, Nat.ne_of_lt hn]
  · simp
  · simp [List.getElem?_append_right (Nat.le_of_lt hn), List.getElem?_eq_none (Nat.le_of_lt hn),
      List.getElem?_eq_none (show [_].length ≤ n - s.history.length by simp; omega),
      Nat.ne_of_gt hn]

theorem isLive_record (c : Capability) (p : Permission) (granted : Bool) :
    (s.record c p granted).IsLive r u n ↔ s.IsLive r u n := by
  unfold IsLive record
  rw [getElem?_modify]
  split <;> cases s.history[n]? <;> simp

theorem isLive_release (k : Nat) :
    (s.modify k fun e => { e with log := [], live := false }).IsLive r u n ↔
      s.IsLive r u n ∧ k ≠ n := by
  unfold IsLive
  rw [getElem?_modify]
  split <;> cases s.history[n]? <;> simp_all

/-! ### The history tells -/

/-- The history tells which confinements are live, and what they have logged. -/
structure Told (events : List RegistryEvent) (s : Confinements) : Prop where
  live : ∀ r u t, liveToken? r u events = some t ↔ t.unit = u ∧ s.IsLive r u t.nonce
  logged : ∀ (n : Nat) e, s.history[n]? = some e → e.live = true →
    e.log.reverse = logged ⟨e.unit, n⟩ events
  /-- numbers that have been given out are in use -/
  known : ∀ e ∈ events, ∀ t, e.2 = .token t → t.nonce < s.history.length

variable {events : List RegistryEvent}

theorem Told.single (h : s.Told events) : s.Single := by
  intro r u m n hm hn
  have hm' := (h.live r u ⟨u, m⟩).2 ⟨rfl, hm⟩
  have hn' := (h.live r u ⟨u, n⟩).2 ⟨rfl, hn⟩
  rw [hm'] at hn'
  simpa using hn'

theorem Told.liveToken? (h : s.Told events) (r : RegistryId) (u : UnitId) :
    liveToken? r u events = (s.live? r u).map (ConfinementToken.mk u) := by
  apply Option.ext
  intro t
  rw [h.live, Option.map_eq_some_iff]
  constructor
  · rintro ⟨rfl, ht⟩
    exact ⟨t.nonce, (live?_eq_some_iff h.single).2 ht, rfl⟩
  · rintro ⟨n, hn, rfl⟩
    exact ⟨rfl, isLive_of_live? hn⟩

theorem Told.confine (h : s.Told events) {grants : GrantSet} (hr : s.live? r u = none) :
    Told ((.confine r u grants, .token ⟨u, s.history.length⟩) :: events)
      ⟨s.history ++ [⟨r, u, grants, [], true⟩]⟩ := by
  refine ⟨fun r' u' t => ?_, fun n e he hl => ?_, fun e he t ht => ?_⟩
  · rw [isLive_confine, RegistryEvent.liveToken?]
    by_cases hru : r = r' ∧ u = u'
    · obtain ⟨rfl, rfl⟩ := hru
      have hnone := not_isLive_of_live?_eq_none hr t.nonce
      obtain ⟨v, n⟩ := t
      simp only [and_self, if_true, Option.some.injEq, ConfinementToken.mk.injEq, hnone, false_or,
        and_true]
      exact and_congr eq_comm eq_comm
    · -- another unit, or another registry
      rw [if_neg hru, h.live]
      simp [hru]
  · rcases Nat.lt_trichotomy n s.history.length with hn | rfl | hn
    · -- a confinement made before
      rw [List.getElem?_append_left hn] at he
      rw [h.logged n e he hl]
      simp [Nat.ne_of_gt hn]
    · -- the new one, whose log is empty
      rw [List.getElem?_concat_length, Option.some.injEq] at he
      subst he
      simp
    · -- none was made with a later number
      rw [List.getElem?_eq_none (by simp; omega)] at he
      cases he
  · rw [List.length_append]
    -- the new token is the last number, and the earlier ones stay below it
    rcases List.mem_cons.1 he with rfl | he
    · cases ht
      simp
    · exact Nat.lt_add_right _ (h.known e he t ht)

theorem liveToken?_cons_of_ne {e : RegistryEvent} (ht : ∀ t, e.2 ≠ .token t)
    (hl : ∀ ds, e.2 ≠ .log ds) : liveToken? r u (e :: events) = liveToken? r u events := by
  obtain ⟨call, a⟩ := e
  cases a with
  | token t => exact absurd rfl (ht t)
  | log ds => exact absurd rfl (hl ds)
  | _ => cases call <;> rfl

/-- A decision goes into the log, and into the history. -/
theorem Told.decided (h : s.Told events) {c : Capability} {p : Permission} {granted : Bool}
    {e : RegistryEvent} (ht : ∀ t, e.2 ≠ .token t) (hl : ∀ ds, e.2 ≠ .log ds)
    (he : ∀ t, decision? t e = if c.nonce = t.nonce then some ⟨p, granted⟩ else none) :
    (s.record c p granted).Told (e :: events) := by
  refine ⟨fun r u t => ?_, fun n f hf hlive => ?_, fun e' he' t ht' => ?_⟩
  · -- nothing is confined or released
    rw [liveToken?_cons_of_ne ht hl, h.live, isLive_record]
  · -- the log, one decision longer for the confinement asked
    rw [record, getElem?_modify] at hf
    rw [RegistryEvent.logged, if_neg (ht _), he]
    by_cases hn : c.nonce = n
    · rw [if_pos hn] at hf ⊢
      obtain ⟨f', hf', rfl⟩ := Option.map_eq_some_iff.1 hf
      rw [List.reverse_cons, h.logged n f' hf' hlive]
      rfl
    · rw [if_neg hn] at hf ⊢
      rw [h.logged n f hf hlive]
      simp
  · -- no token is new
    rw [record, modify, List.length_modify]
    rcases List.mem_cons.1 he' with rfl | he'
    · exact absurd ht' (ht t)
    · exact h.known e' he' t ht'

theorem Told.noted (h : s.Told events) {e : RegistryEvent} (ht : ∀ t, e.2 ≠ .token t)
    (hl : ∀ ds, e.2 ≠ .log ds) (he : ∀ t, decision? t e = none) : s.Told (e :: events) := by
  refine ⟨fun r u t => ?_, fun n f hf hlive => ?_, fun e' he' t ht' => ?_⟩
  · rw [liveToken?_cons_of_ne ht hl, h.live]
  · rw [RegistryEvent.logged, if_neg (ht _), he, h.logged n f hf hlive]
    simp
  · rcases List.mem_cons.1 he' with rfl | he'
    · exact absurd ht' (ht t)
    · exact h.known e' he' t ht'

theorem Told.release (h : s.Told events) {t : ConfinementToken} {ds : List Decision}
    (hr : s.live? r u = some t.nonce) :
    (s.modify t.nonce fun e => { e with log := [], live := false }).Told
      ((.release r t u, .log ds) :: events) := by
  refine ⟨fun r' u' t' => ?_, fun n e he hlive => ?_, fun e he t' ht' => ?_⟩
  · rw [isLive_release, RegistryEvent.liveToken?]
    by_cases hru : r = r' ∧ u = u'
    · obtain ⟨rfl, rfl⟩ := hru
      simp only [and_self, if_true, reduceCtorEq, false_iff, not_and, not_not]
      exact fun _ hl => h.single r u _ _ (isLive_of_live? hr) hl
    · rw [if_neg hru, h.live]
      refine and_congr_right fun _ => (and_iff_left_of_imp fun hl heq => hru ?_).symm
      -- the confinement of the token is not one of another unit, nor of another registry
      obtain ⟨e, he, -, hr₁, hu₁⟩ := isLive_of_live? hr
      obtain ⟨e', he', -, hr₂, hu₂⟩ := hl
      rw [heq, he', Option.some.injEq] at he
      subst he
      exact ⟨hr₁.symm.trans hr₂, hu₁.symm.trans hu₂⟩
  · rw [getElem?_modify] at he
    by_cases hn : t.nonce = n
    · rw [if_pos hn] at he
      obtain ⟨e', -, rfl⟩ := Option.map_eq_some_iff.1 he
      cases hlive
    · -- the log of another confinement
      rw [if_neg hn] at he
      rw [h.logged n e he hlive]
      simp
  · rw [modify, List.length_modify]
    rcases List.mem_cons.1 he with rfl | he
    · cases ht'
    · exact h.known e he t' ht'

/-- **What one operation does, the history tells.** -/
theorem Told.perform (h : s.Told events) (call : RegistryCall) :
    (call.perform s).2.Told ((call, (call.perform s).1) :: events) := by
  cases call with
  | confine r u grants =>
    cases hc : s.confine r u grants with
    | error fault =>
      simp only [RegistryCall.perform, hc]
      exact h.noted (by simp) (by simp) fun _ => rfl
    | ok q =>
      obtain ⟨hr, ht, hs'⟩ := confine_eq_ok_iff.1 (show s.confine r u grants = .ok (q.1, q.2) from hc)
      simp only [RegistryCall.perform, hc, ht, hs']
      exact h.confine hr
  | capability r t =>
    cases hc : s.capability r t <;> simp only [RegistryCall.perform, hc] <;>
      exact h.noted (by simp) (by simp) fun _ => rfl
  | check c p => exact h.decided (by simp) (by simp) fun _ => rfl
  | record c p granted =>
    exact h.decided (by simp) (by simp) fun _ => rfl
  | release r t u =>
    cases hc : s.release r t u with
    | error fault =>
      simp only [RegistryCall.perform, hc]
      exact h.noted (by simp) (by simp) fun _ => rfl
    | ok q =>
      obtain ⟨-, hr, -, hs'⟩ := release_eq_ok_iff.1 (show s.release r t u = .ok (q.1, q.2) from hc)
      simp only [RegistryCall.perform, hc, hs']
      exact h.release hr

theorem told_empty : Told [] empty :=
  ⟨by simp [IsLive, empty], by simp [empty], by simp⟩

theorem told_ofCalls (calls : List RegistryCall) :
    (RegistryEvent.ofCalls calls).2.Told (RegistryEvent.ofCalls calls).1 := by
  suffices ∀ h : List RegistryEvent × Confinements, h.2.Told h.1 →
      Told (calls.foldl (fun h call => ((call, (call.perform h.2).1) :: h.1, (call.perform h.2).2)) h).1
        (calls.foldl (fun h call => ((call, (call.perform h.2).1) :: h.1, (call.perform h.2).2)) h).2 from
    this ([], .empty) told_empty
  induction calls with
  | nil => exact fun h hh => hh
  | cons call rest ih => exact fun h hh => ih _ (hh.perform call)

/-! ### Released confinements -/

def IsReleased (s : Confinements) (n : Nat) : Prop := ∃ e, s.history[n]? = some e ∧ e.live = false

theorem IsReleased.modify (h : s.IsReleased n) (k : Nat) {f : Confinement → Confinement}
    (hf : ∀ e, e.live = false → (f e).live = false) : (s.modify k f).IsReleased n := by
  obtain ⟨e, he, hl⟩ := h
  unfold IsReleased
  rw [getElem?_modify, he]
  split
  · exact ⟨f e, rfl, hf e hl⟩
  · exact ⟨e, rfl, hl⟩

theorem IsReleased.perform (h : s.IsReleased n) (call : RegistryCall) :
    (call.perform s).2.IsReleased n := by
  cases call with
  | confine r u grants =>
    cases hc : s.confine r u grants with
    | error fault => simpa only [RegistryCall.perform, hc] using h
    | ok q =>
      obtain ⟨-, -, hs'⟩ := confine_eq_ok_iff.1 (show s.confine r u grants = .ok (q.1, q.2) from hc)
      obtain ⟨e, he, hl⟩ := h
      have hn := (List.getElem?_eq_some_iff.1 he).1
      simp only [RegistryCall.perform, hc, hs']
      exact ⟨e, (List.getElem?_append_left hn).trans he, hl⟩
  | capability r t => cases hc : s.capability r t <;> simpa only [RegistryCall.perform, hc] using h
  | check c p => exact h.modify _ fun _ hl => hl
  | record c p granted => exact h.modify _ fun _ hl => hl
  | release r t u =>
    cases hc : s.release r t u with
    | error fault => simpa only [RegistryCall.perform, hc] using h
    | ok q =>
      obtain ⟨-, -, -, hs'⟩ := release_eq_ok_iff.1 (show s.release r t u = .ok (q.1, q.2) from hc)
      simp only [RegistryCall.perform, hc, hs']
      exact h.modify _ fun _ _ => rfl

theorem IsReleased.performAll (h : s.IsReleased n) (calls : List RegistryCall) :
    (RegistryCall.performAll s calls).IsReleased n := by
  induction calls generalizing s with
  | nil => exact h
  | cons call rest ih => exact ih (h.perform call)

theorem IsReleased.allows {c : Capability} (h : s.IsReleased c.nonce) (p : Permission) :
    s.allows c p = false := by
  obtain ⟨e, he, hl⟩ := h
  simp [Confinements.allows, he, hl]

/-! ### Operations on different units -/

def SameFor (u : UnitId) (s s' : Confinements) : Prop :=
  ∀ (n : Nat) e, e.unit = u → (s.history[n]? = some e ↔ s'.history[n]? = some e)

theorem SameFor.live? (h : SameFor u s s') (r : RegistryId) : s'.live? r u = s.live? r u := by
  refine live?_congr fun n => ⟨?_, ?_⟩
  · rintro ⟨e, he, hl, hr, hu⟩
    exact ⟨e, (h n e hu).1 he, hl, hr, hu⟩
  · rintro ⟨e, he, hl, hr, hu⟩
    exact ⟨e, (h n e hu).2 he, hl, hr, hu⟩

theorem SameFor.modify {k : Nat} {f : Confinement → Confinement} (hf : ∀ e, (f e).unit = e.unit)
    (hk : ∃ e, s.history[k]? = some e ∧ e.unit ≠ v) : SameFor v s (s.modify k f) := by
  intro n e he
  obtain ⟨e', he', hne⟩ := hk
  rw [getElem?_modify]
  split
  · next hn =>
    subst hn
    rw [he', Option.map_some, Option.some.injEq, Option.some.injEq]
    constructor
    · rintro rfl
      exact absurd he hne
    · rintro rfl
      exact absurd ((hf e').symm.trans he) hne
  · rfl

theorem SameFor.append {e : Confinement} (he : e.unit ≠ v) : SameFor v s ⟨s.history ++ [e]⟩ := by
  intro n e' he'
  rcases Nat.lt_trichotomy n s.history.length with hn | rfl | hn
  · rw [List.getElem?_append_left hn]
  · rw [List.getElem?_concat_length, List.getElem?_eq_none (Nat.le_refl _)]
    simp only [reduceCtorEq, Option.some.injEq, false_iff]
    rintro rfl
    exact he he'
  · rw [List.getElem?_eq_none (Nat.le_of_lt hn), List.getElem?_eq_none (by simp; omega)]

/-- What an operation does to the confinements of its unit, in any state that has the same ones: it
only answers, or it changes one of them, or it adds one. -/
inductive Acts (u : UnitId) (s : Confinements) (call : RegistryCall) : Prop where
  | answers (x : RegistryAnswer) (h : ∀ s', SameFor u s s' → call.perform s' = (x, s'))
  | changes (x : RegistryAnswer) (k : Nat) (f : Confinement → Confinement)
      (hk : ∃ e, s.history[k]? = some e ∧ e.unit = u) (hf : ∀ e, (f e).unit = e.unit)
      (h : ∀ s', SameFor u s s' → call.perform s' = (x, s'.modify k f))
  | adds (e : Confinement) (he : e.unit = u)
      (h : ∀ s', SameFor u s s' →
        call.perform s' = (.token ⟨u, s'.history.length⟩, ⟨s'.history ++ [e]⟩))

theorem acts_of_concerns {call : RegistryCall} (h : call.Concerns s u) : Acts u s call := by
  have owner : ∀ {c : Capability}, s.owner? c = some u →
      ∃ e, s.history[c.nonce]? = some e ∧ e.unit = u := fun hc => Option.map_eq_some_iff.1 hc
  cases call with
  | confine r v grants =>
    obtain rfl : v = u := h
    cases hr : s.live? r v with
    | some n =>
      refine .answers (.failed (.alreadyConfined v)) fun s' hs' => ?_
      simp [confine, isConfined, hs'.live?, hr]
    | none =>
      refine .adds ⟨r, v, grants, [], true⟩ rfl fun s' hs' => ?_
      simp [confine, isConfined, hs'.live?, hr]
  | capability r t =>
    obtain rfl : t.unit = u := h
    refine .answers ((RegistryCall.capability r t).perform s).1 fun s' hs' => ?_
    simp only [RegistryCall.perform, capability, hs'.live?]
    cases s.live? r t.unit with
    | none => rfl
    | some n =>
      dsimp only
      split <;> rfl
  | check c p =>
    obtain ⟨e, he, hu⟩ := owner h
    refine .changes (.decided (s.allows c p)) c.nonce
      (fun e => { e with log := ⟨p, s.allows c p⟩ :: e.log }) ⟨e, he, hu⟩ (fun _ => rfl) fun s' hs' => ?_
    have hallows : s'.allows c p = s.allows c p := by
      unfold allows
      rw [he, (hs' _ e hu).1 he]
    simp only [RegistryCall.perform, check, hallows, record]
  | record c p granted =>
    exact .changes .recorded c.nonce (fun e => { e with log := ⟨p, granted⟩ :: e.log }) (owner h)
      (fun _ => rfl) fun s' _ => rfl
  | release r t v =>
    obtain rfl : v = u := h
    cases hr : s.live? r v with
    | none =>
      refine .answers (.failed (.notConfined v)) fun s' hs' => ?_
      simp [release, hs'.live?, hr]
    | some n =>
      by_cases ht : t.unit = v ∧ n = t.nonce
      · obtain ⟨e, he, -, -, hu⟩ := isLive_of_live? hr
        refine .changes (.log e.log.reverse) n (fun e => { e with log := [], live := false })
          ⟨e, he, hu⟩ (fun _ => rfl) fun s' hs' => ?_
        simp only [RegistryCall.perform, release, hs'.live?, hr, ht, and_self, if_true, decisions]
        rw [← ht.2, (hs' _ e hu).1 he]
      · refine .answers (.failed (.staleToken v)) fun s' hs' => ?_
        simp [release, hs'.live?, hr, ht]

theorem Acts.sameFor {call : RegistryCall} (h : Acts u s call) (huv : u ≠ v) :
    SameFor v s (call.perform s).2 := by
  have hs : SameFor u s s := fun _ _ _ => Iff.rfl
  cases h with
  | answers x h =>
    rw [h s hs]
    exact fun _ _ _ => Iff.rfl
  | changes x k f hk hf h =>
    obtain ⟨e, he, hu⟩ := hk
    rw [h s hs]
    exact .modify hf ⟨e, he, fun hv => huv (hu.symm.trans hv)⟩
  | adds e he h =>
    rw [h s hs]
    exact .append fun hv => huv (he.symm.trans hv)

theorem renumber_refl (x : RegistryAnswer) : x.renumber (Equiv.refl Nat) = x := by cases x <;> rfl

theorem Commute.symm {a b : RegistryCall} (h : s.Commute a b) : s.Commute b a := by
  obtain ⟨π, hπ, ha, hb, hs⟩ := h
  refine ⟨π.symm, fun n hn => π.symm_apply_eq.2 (hπ n hn).symm, ?_, ?_, fun n => ?_⟩
  · rw [hb]
    cases ((b.perform (a.perform s).2).1) <;> simp [RegistryAnswer.renumber]
  · rw [ha]
    cases (a.perform s).1 <;> simp [RegistryAnswer.renumber]
  · rw [← hs, π.apply_symm_apply]

theorem commute_of_perform {a b : RegistryCall} {x y : RegistryAnswer} {sa sb t : Confinements}
    (ha : a.perform s = (x, sa)) (hb : b.perform s = (y, sb)) (ha' : a.perform sb = (x, t))
    (hb' : b.perform sa = (y, t)) : s.Commute a b := by
  refine ⟨Equiv.refl Nat, fun _ _ => rfl, ?_, ?_, fun _ => ?_⟩
  · rw [hb, ha', ha, renumber_refl]
  · rw [ha, hb', hb, renumber_refl]
  · rw [hb, ha', ha, hb']
    rfl

theorem modify_comm {k l : Nat} (h : k ≠ l) (f g : Confinement → Confinement) :
    (s.modify k f).modify l g = (s.modify l g).modify k f := by
  refine congrArg Confinements.mk (List.ext_getElem? fun n => ?_)
  have hn : ¬ (k = n ∧ l = n) := fun hkl => h (hkl.1.trans hkl.2.symm)
  simp only [modify, List.getElem?_modify]
  by_cases hk : k = n <;> by_cases hl : l = n <;> simp_all

theorem modify_append {k : Nat} (hk : k < s.history.length) (f : Confinement → Confinement)
    (e : Confinement) : modify ⟨s.history ++ [e]⟩ k f = ⟨(s.modify k f).history ++ [e]⟩ := by
  refine congrArg Confinements.mk (List.ext_getElem? fun n => ?_)
  have hlen : (s.history.modify k f).length = s.history.length := List.length_modify ..
  simp only [modify, List.getElem?_modify]
  rcases Nat.lt_or_ge n s.history.length with hn | hn
  · rw [List.getElem?_append_left hn, List.getElem?_append_left (hlen ▸ hn), List.getElem?_modify]
  · have hne : k ≠ n := Nat.ne_of_lt (Nat.lt_of_lt_of_le hk hn)
    rw [List.getElem?_append_right hn, List.getElem?_append_right (hlen ▸ hn), hlen]
    simp [hne]

theorem getElem?_swap (l : List Confinement) (e e' : Confinement) (n : Nat) :
    (l ++ [e'] ++ [e])[Equiv.swap l.length (l.length + 1) n]? = (l ++ [e] ++ [e'])[n]? := by
  by_cases h₀ : n = l.length
  · subst h₀
    simp
  · by_cases h₁ : n = l.length + 1
    · subst h₁
      simp
    · rw [Equiv.swap_apply_of_ne_of_ne h₀ h₁]
      rcases Nat.lt_or_ge n l.length with hn | hn
      · simp [List.getElem?_append_left, hn]
      · rw [List.getElem?_eq_none (by simp; omega), List.getElem?_eq_none (by simp; omega)]

/-- An operation that only answers, and the same before and behind another, commutes with it. -/
theorem commute_of_answers {a b : RegistryCall} {x : RegistryAnswer} (h : a.perform s = (x, s))
    (h' : a.perform (b.perform s).2 = (x, (b.perform s).2)) : s.Commute a b :=
  commute_of_perform h rfl h' rfl

theorem commute_changes_adds {a b : RegistryCall} {x : RegistryAnswer} {k : Nat}
    {f : Confinement → Confinement} {e : Confinement} (hk : k < s.history.length)
    (ha : ∀ s', s' = s ∨ s' = (b.perform s).2 → a.perform s' = (x, s'.modify k f))
    (hb : ∀ s', s' = s ∨ s' = (a.perform s).2 →
      b.perform s' = (.token ⟨v, s'.history.length⟩, ⟨s'.history ++ [e]⟩)) : s.Commute a b := by
  have ha₀ := ha s (.inl rfl)
  have hb₀ := hb s (.inl rfl)
  have ha₁ := ha _ (.inr rfl)
  have hb₁ := hb _ (.inr rfl)
  have hlen : (s.modify k f).history.length = s.history.length := List.length_modify ..
  rw [hb₀, modify_append hk] at ha₁
  rw [ha₀, hlen] at hb₁
  exact commute_of_perform ha₀ hb₀ ha₁ hb₁

/-- **Operations that concern different units commute.** -/
theorem commute_of_concerns {a b : RegistryCall} (ha : a.Concerns s u) (hb : b.Concerns s v)
    (huv : u ≠ v) : s.Commute a b := by
  have hau := acts_of_concerns ha
  have hbv := acts_of_concerns hb
  -- what the other call does is the same for this one's unit
  have same : ∀ s', s' = s ∨ s' = (b.perform s).2 → SameFor u s s' := by
    rintro s' (rfl | rfl)
    · exact fun _ _ _ => Iff.rfl
    · exact hbv.sameFor huv.symm
  have same' : ∀ s', s' = s ∨ s' = (a.perform s).2 → SameFor v s s' := by
    rintro s' (rfl | rfl)
    · exact fun _ _ _ => Iff.rfl
    · exact hau.sameFor huv
  cases hau with
  | answers x h => exact commute_of_answers (h _ (same _ (.inl rfl))) (h _ (same _ (.inr rfl)))
  | changes x k f hk hf h =>
    obtain ⟨e, he, hu⟩ := hk
    cases hbv with
    | answers y g =>
      exact (commute_of_answers (g _ (same' _ (.inl rfl))) (g _ (same' _ (.inr rfl)))).symm
    | changes y l g hl hg g' =>
      obtain ⟨e', he', hv⟩ := hl
      -- confinements of two units are two entries of the history
      have hkl : k ≠ l := by
        rintro rfl
        rw [he, Option.some.injEq] at he'
        exact huv (hu.symm.trans ((congrArg Confinement.unit he').trans hv))
      have hb₀ := g' s (same' _ (.inl rfl))
      have ha₀ := h s (same _ (.inl rfl))
      have hb₁ := g' _ (same' _ (.inr rfl))
      have ha₁ := h _ (same _ (.inr rfl))
      rw [hb₀, modify_comm hkl.symm] at ha₁
      rw [ha₀] at hb₁
      exact commute_of_perform ha₀ hb₀ ha₁ hb₁
    | adds e' hv g' =>
      exact commute_changes_adds (List.getElem?_eq_some_iff.1 he).1 (fun s' hs' => h s' (same s' hs'))
        fun s' hs' => g' s' (same' s' hs')
  | adds e hu h =>
    cases hbv with
    | answers y g =>
      exact (commute_of_answers (g _ (same' _ (.inl rfl))) (g _ (same' _ (.inr rfl)))).symm
    | changes y l g hl hg g' =>
      obtain ⟨e', he', hv⟩ := hl
      exact (commute_changes_adds (List.getElem?_eq_some_iff.1 he').1
        (fun s' hs' => g' s' (same' s' hs')) fun s' hs' => h s' (same s' hs')).symm
    | adds e' hv g' =>
      have hb₀ := g' s (same' _ (.inl rfl))
      have ha₀ := h s (same _ (.inl rfl))
      have hb₁ := g' _ (same' _ (.inr rfl))
      have ha₁ := h _ (same _ (.inr rfl))
      rw [hb₀] at ha₁
      rw [ha₀] at hb₁
      -- both confine: whichever comes first gets the smaller number
      refine ⟨Equiv.swap s.history.length (s.history.length + 1), fun n hn => ?_, ?_, ?_, fun n => ?_⟩
      · exact Equiv.swap_apply_of_ne_of_ne (Nat.ne_of_lt hn) (by omega)
      · rw [hb₀, ha₁, ha₀]
        simp [RegistryAnswer.renumber]
      · rw [hb₀, ha₀, hb₁]
        simp [RegistryAnswer.renumber]
      · rw [hb₀, ha₁, ha₀, hb₁]
        exact getElem?_swap s.history e e' n

/-! ### The law -/

theorem Told.lawful (h : s.Told events) : s.Lawful events where
  single := h.single
  confine_iff r u grants := by
    rw [h.liveToken?]
    unfold Confinements.confine isConfined
    cases s.live? r u <;> simp
  fresh r u grants t s' hc := by
    obtain ⟨-, rfl, -⟩ := confine_eq_ok_iff.1 hc
    exact ⟨rfl, fun e he t' ht' => Nat.ne_of_lt (h.known e he t' ht')⟩
  capability_iff r t c := by
    rw [capability_eq_ok_iff, h.live, live?_eq_some_iff h.single]
    simp
  release_iff r t u := by
    rw [h.live]
    constructor
    · -- whatever is released was live
      rintro ⟨x, hx⟩
      obtain ⟨hu, hl, -⟩ := release_eq_ok_iff.1 (show s.release r t u = .ok (x.1, x.2) from hx)
      exact ⟨hu, hu, isLive_of_live? hl⟩
    · rintro ⟨hu, -, hl⟩
      exact ⟨(_, _), release_eq_ok_iff.2 ⟨hu, (live?_eq_some_iff h.single).2 hl, rfl, rfl⟩⟩
  release_log r t u ds s' hr := by
    obtain ⟨rfl, hl, rfl, rfl⟩ := release_eq_ok_iff.1 hr
    obtain ⟨e, he, hlive, -, hu⟩ := isLive_of_live? hl
    refine ⟨?_, fun later c p hc => ?_⟩
    · -- the log handed out is the one told by the events
      have hlog := h.logged t.nonce e he hlive
      rw [hu] at hlog
      simpa [decisions, he] using hlog
    · -- and nothing is allowed by a confinement once it is released
      have hreleased : (s.modify t.nonce fun e => { e with log := [], live := false }).IsReleased
          c.nonce := by
        unfold IsReleased
        rw [hc, getElem?_modify, if_pos rfl, he]
        exact ⟨_, rfl, rfl⟩
      exact (hreleased.performAll later).allows p
  unchanged call fault hf := by
    cases call with
    | confine r u grants =>
      cases hc : s.confine r u grants <;> simp_all
    | capability r t => cases hc : s.capability r t <;> simp_all
    | check c p => cases hf
    | record c p granted => cases hf
    | release r t u => cases hc : s.release r t u <;> simp_all
  commute a b u v ha hb huv := commute_of_concerns ha hb huv

/-- **Registries keep the law**, whatever has been called, and with whatever tokens and
capabilities. -/
theorem lawful_ofCalls (calls : List RegistryCall) :
    (RegistryEvent.ofCalls calls).2.Lawful (RegistryEvent.ofCalls calls).1 :=
  (told_ofCalls calls).lawful

/-- The log of a confinement has what was decided since, and nothing that an old capability was told. -/
example :
    let r : RegistryId := ⟨0⟩
    let u : UnitId := ⟨1⟩
    let h := RegistryEvent.ofCalls [.confine r u .empty, .check ⟨0⟩ .createThread, .release r ⟨u, 0⟩ u,
      .confine r u .empty, .check ⟨0⟩ .exit, .record ⟨1⟩ .createThread true]
    (liveToken? r u h.1, logged ⟨u, 1⟩ h.1, (h.2.release r ⟨u, 1⟩ u).toOption.map (·.1)) =
      (some ⟨u, 1⟩, [⟨.createThread, true⟩], some [⟨.createThread, true⟩]) := by
  decide

end Confinements

end Confine
