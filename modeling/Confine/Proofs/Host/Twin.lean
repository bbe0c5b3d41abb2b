import Confine.Host.World
import Confine.Permission.GrantSet
import Confine.Proofs.Machine.Query

/-!
# Two hosts side by side

`Twin W R x y` — from states that `W` relates, `x` and `y` come to answers that `R` relates, and to states that `W`
relates again.

* `Twin.bind` — programs that go on alike after alike beginnings are alike;
* `Query.All.twin` — so is a computation that asks what is answered alike only;
* `Host.Resembles` — two hosts answer alike what may be asked;
* `World.host_resembles` — so do worlds that agree on what was granted.
-/

namespace Confine

variable {σ τ α β γ δ : Type} {W : σ → τ → Prop}

/-- **Two programs do the same, as far as one can see.** -/
def Twin (W : σ → τ → Prop) (R : α → β → Prop) (x : StateM σ α) (y : StateM τ β) : Prop :=
  ∀ w w', W w w' → R (x w).1 (y w').1 ∧ W (x w).2 (y w').2

/-- The values are the same, and `P` is true of them. -/
def Both (P : α → Prop) (a b : α) : Prop := a = b ∧ P a

namespace Twin

variable {R : α → β → Prop} {S : γ → δ → Prop} {x : StateM σ α} {y : StateM τ β}

theorem pure {a : α} {b : β} (h : R a b) :
    Twin W R (Pure.pure a : StateM σ α) (Pure.pure b : StateM τ β) := fun _ _ hw => ⟨h, hw⟩

theorem bind {k : α → StateM σ γ} {l : β → StateM τ δ} (h : Twin W R x y)
    (hk : ∀ a b, R a b → Twin W S (k a) (l b)) : Twin W S (x >>= k) (y >>= l) := by
  intro w w' hw
  obtain ⟨hr, hw⟩ := h w w' hw
  exact hk _ _ hr _ _ hw

theorem self (x : StateM σ α) : Twin Eq Eq x x := by
  rintro w _ rfl
  exact ⟨rfl, rfl⟩

theorem mono {R' : α → β → Prop} (h : Twin W R x y) (hR : ∀ a b, R a b → R' a b) :
    Twin W R' x y := fun w w' hw => ⟨hR _ _ (h w w' hw).1, (h w w' hw).2⟩

end Twin

/-- **What asks only what is answered alike comes to the same.** -/
theorem Query.All.twin {A : HostRequest → Prop} {P : α → Prop} {q : Query α} (h : All A P q)
    {answer : (r : HostRequest) → StateM σ r.Answer}
    {answer' : (r : HostRequest) → StateM τ r.Answer}
    (hA : ∀ r, A r → Twin W Eq (answer r) (answer' r)) :
    Twin W (Both P) (q.answered answer) (q.answered answer') := by
  induction h with
  | done ha => exact .pure ⟨rfl, ha⟩
  | ask hr _ ih => exact (hA _ hr).bind fun a b hab => hab ▸ ih a

theorem Query.Rel.twin {R : α → β → Prop} {q : Query α} {q' : Query β} (h : Rel R q q')
    {answer : (r : HostRequest) → StateM σ r.Answer}
    {answer' : (r : HostRequest) → StateM τ r.Answer}
    (ha : ∀ r, Twin W Eq (answer r) (answer' r)) :
    Twin W R (q.answered answer) (q'.answered answer') := by
  induction h with
  | done hab => exact .pure hab
  | ask _ ih => exact (ha _).bind fun a b hab => hab ▸ ih a

/-! ### Hosts -/

/-- The grants allow the request. -/
def GrantSet.Permits (g : GrantSet) : HostRequest → Prop
  | .clock => True
  | .getEnv name => g.implies (.readEnv name) = true
  | .writeFile path _ => g.implies (.writeFile ⟨path⟩) = true
  | .workingDirectory => g.implies (.readProperty "user.dir") = true

/-- **Two hosts with the same clock for limits that answer the requests of `A` alike.** Other answers may
differ, and so may the date and random numbers. -/
structure Host.Resembles (A : HostRequest → Prop) (W : σ → τ → Prop) (h : Host (StateM σ))
    (h' : Host (StateM τ)) : Prop where
  elapsed : Twin W Eq h.elapsed h'.elapsed
  idleUntil : ∀ n, Twin W Eq (h.idleUntil n) (h'.idleUntil n)
  today : Twin W (fun _ _ => True) h.today h'.today
  randomBytes : Twin W (fun _ _ => True) h.randomBytes h'.randomBytes
  answer : ∀ r, A r → Twin W Eq (h.answer r) (h'.answer r)

theorem Host.Resembles.refl (A : HostRequest → Prop) (h : Host (StateM σ)) :
    h.Resembles A Eq h where
  elapsed := .self _
  idleUntil _ := .self _
  today := (Twin.self _).mono fun _ _ _ => trivial
  randomBytes := (Twin.self _).mono fun _ _ _ => trivial
  answer _ _ := .self _

theorem Host.Resembles.mono {A B : HostRequest → Prop} {h : Host (StateM σ)} {h' : Host (StateM τ)}
    (hh : h.Resembles B W h') (hAB : ∀ r, A r → B r) : h.Resembles A W h' :=
  { hh with answer := fun r hr => hh.answer r (hAB r hr) }

/-! ### Worlds -/

/-- The worlds agree on all that the grants allow to ask: on the clock, on some variables, and, where
files may be written, on the files. -/
structure World.Alike (g : GrantSet) (w w' : World) : Prop where
  clock : w'.clock = w.clock
  env : ∀ name, g.implies (.readEnv name) = true → w'.env? name = w.env? name
  files : ∀ path, g.implies (.writeFile path) = true →
    w'.files = w.files ∧ w'.workDir = w.workDir
  workDir : g.implies (.readProperty "user.dir") = true → w'.workDir = w.workDir

/-- The worlds agree still when both clocks have gone on. -/
theorem World.Alike.withClock {g : GrantSet} {w w' : World} (h : w.Alike g w') (n : Nat) :
    World.Alike g { w with clock := n } { w' with clock := n } :=
  ⟨rfl, h.env, h.files, h.workDir⟩

/-- **Worlds that agree on what was granted make hosts that resemble each other.** -/
theorem World.host_resembles (g : GrantSet) :
    World.host.Resembles g.Permits (World.Alike g) World.host where
  elapsed w w' h := by
    have hw := h.withClock (w.clock + World.tick)
    refine ⟨h.clock.symm, ?_⟩
    simp only [World.host, World.advance, h.clock]
    exact hw
  idleUntil n w w' h := by
    have hw := h.withClock (max w.clock n)
    refine ⟨rfl, ?_⟩
    simp only [World.host, h.clock]
    exact hw
  today w w' h := ⟨trivial, h⟩
  randomBytes w w' h := ⟨trivial, h⟩
  answer r hr w w' h := by
    cases r with
    | clock =>
      -- every reading of the clock takes a tick, in both worlds the same
      have hw := h.withClock (w.clock + World.tick)
      simp only [World.host, World.answer, World.now, World.advance, h.clock]
      exact ⟨rfl, hw⟩
    | getEnv name => exact ⟨(h.env name hr).symm, h⟩
    | workingDirectory =>
      simp only [World.host, World.answer, h.workDir hr]
      exact ⟨rfl, h⟩
    | writeFile path contents =>
      -- the file system and the directory are the same in both, since the grants permit the file
      obtain ⟨hfiles, hdir⟩ := h.files _ hr
      simp only [World.host, World.answer, hfiles, hdir]
      cases w.files.write w.workDir path contents with
      | error fault => exact ⟨rfl, h⟩
      | ok files => exact ⟨rfl, h.clock, h.env, fun _ _ => ⟨rfl, rfl⟩, fun _ => rfl⟩

end Confine
