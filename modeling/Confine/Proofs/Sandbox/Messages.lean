import Confine.Proofs.Sandbox.BriefTurns
import Confine.Proofs.Sandbox.Interleaved

/-!
# How long texts get in a run

`Task.Proceeds t limit s₀ n c kept` — from the state `s₀`, with `n` turns of threads and steps of trusted work in any
order, and a host whose texts have at most `limit` bytes, the threads have come to the crowd `c`, and the calls that have
ended have given trusted work the values `kept`.

* `Task.Proceeds.brief` — the crowd keeps to limits that grow with each turn, for messages alone;
* `Task.Proceeds.texts_bounded` — **the texts of a program have a bound that no number of turns changes**, and its
  messages one that grows with the turns;
* `not_messages_bounded` — **no bound holds for all turns**: an exception that is made from another one in a loop has
  a longer message each time.
-/

namespace Confine

/-- The values that a program holds: in the fields of objects, and in the locals and on the stacks of its threads. -/
def Crowd.values (c : Crowd) : List Value :=
  c.shared.heap.objects.toList.flatMap (fun o => o.map (·.2)) ++
    c.threads.flatMap fun x => x.2.frames.flatMap fun f => f.locals.toList ++ f.stack.values

/-- **Turns of threads and steps of trusted work, in any order.** -/
inductive Task.Proceeds (t : Task) (limit : Nat) (s₀ : TaskState) :
    Nat → Crowd → List Value → Prop where
  | start : Proceeds t limit s₀ 0 ⟨s₀, []⟩ []
  /-- any of the threads has a turn, and the host answers anything within the limit -/
  | turn {n : Nat} {s : TaskState} {front back : List (Nat × Activity)} {thread : Nat} {a : Activity}
      {now : Nat} {asked : List Exchange} {u : Turn} {kept : List Value}
      (h : Proceeds t limit s₀ n ⟨s, front ++ (thread, a) :: back⟩ kept)
      (hu : (a.turn t thread now s).Comes asked u) (hasked : ∀ x ∈ asked, x.Brief limit) :
      Proceeds t limit s₀ (n + 1)
        ⟨u.shared, front ++ (u.activity?.map (thread, ·)).toList ++ back⟩ (u.returned?.toList ++ kept)
  /-- trusted work calls a method, with values that it has got or that it has made within the limit -/
  | call {n : Nat} {s : TaskState} {threads : List (Nat × Activity)} {kept : List Value} (thread : Nat)
      (className methodName : String) {arguments : List Value}
      (h : Proceeds t limit s₀ n ⟨s, threads⟩ kept)
      (harguments : ∀ v ∈ arguments, v ∈ kept ∨ v.Brief ⟨limit, limit, s.heap.objects.size⟩) :
      Proceeds t limit s₀ (n + 1)
        ⟨(Activation.start t s className methodName arguments).2,
          (Activation.started t s className methodName arguments).map (thread, ·) ++ threads⟩ kept
  /-- the threads that were registered begin -/
  | begun {n : Nat} {s : TaskState} {threads : List (Nat × Activity)} {kept : List Value}
      (h : Proceeds t limit s₀ n ⟨s, threads⟩ kept) :
      Proceeds t limit s₀ n
        ⟨s.takeStarting.2, threads ++ s.takeStarting.1.map fun x => (x.index, x.activity)⟩ kept
  /-- trusted work does something else: it may make an object or an exception, cancel the task, or tell the tracers
  something, and what they throw stays within the limit -/
  | other {n : Nat} {s s' : TaskState} {threads : List (Nat × Activity)} {kept : List Value}
      (h : Proceeds t limit s₀ n ⟨s, threads⟩ kept)
      (hobjects : s'.heap.objects = s.heap.objects ∨ s'.heap.objects = s.heap.objects.push [])
      (hrecordings : s.recordings.Brief limit → s'.recordings.Brief limit) :
      Proceeds t limit s₀ (n + 1) ⟨s', threads⟩ kept

/-! ### Limits that grow -/

namespace Limits

def grown (limit objects n : Nat) : Limits :=
  ⟨limit, 2 * limit + objects + 8 + n * (limit + 2), objects + n⟩

theorem grown_succ (limit objects n : Nat) : grown limit objects (n + 1) = (grown limit objects n).after := by
  simp only [grown, after, Nat.succ_mul]
  congr 1
  omega

theorem ample_grown {limit : Nat} (h : BinaryOp.maxTextBytes ≤ limit) (objects n : Nat) :
    (grown limit objects n).Ample := by
  induction n with
  | zero => exact ⟨h, by simp [grown]⟩
  | succ n ih =>
    rw [grown_succ]
    exact ih.after

end Limits

/-- A crowd keeps to the limits, and so does what trusted work has got. -/
structure Crowd.Brief (b : Limits) (c : Crowd) (kept : List Value) : Prop where
  shared : c.shared.Brief b
  threads : ∀ x ∈ c.threads, ∀ f ∈ x.2.frames, f.Brief b
  kept : ∀ v ∈ kept, v.Brief b

namespace Crowd.Brief

variable {b : Limits} {c : Crowd} {kept : List Value}

theorem mono {b' : Limits} (h : c.Brief b kept) (hb : b ≤ b') : c.Brief b' kept :=
  ⟨h.shared.mono hb, fun x hx f hf => (h.threads x hx f hf).mono hb, fun v hv => (h.kept v hv).mono hb⟩

theorem values (h : c.Brief b kept) : ∀ v ∈ c.values, v.Brief b := by
  intro v hv
  rcases List.mem_append.1 hv with hv | hv
  · obtain ⟨o, ho, hv⟩ := List.mem_flatMap.1 hv
    obtain ⟨f, hf, rfl⟩ := List.mem_map.1 hv
    exact h.shared.heap.fields o (Array.mem_toList_iff.1 ho) f hf
  · obtain ⟨x, hx, hv⟩ := List.mem_flatMap.1 hv
    obtain ⟨f, hf, hv⟩ := List.mem_flatMap.1 hv
    have hframe := h.threads x hx f hf
    rcases List.mem_append.1 hv with hv | hv
    · exact hframe.locals v (Array.mem_toList_iff.1 hv)
    · exact hframe.stack v hv

theorem frames_of_activity? {u : Turn} {a : Activity} (h : u.activity? = some a) : u.frames = a.frames := by
  cases u <;> cases h <;> rfl

theorem turn {t : Task} (hb : b.Ample) (ht : ∀ x ∈ t.unit.texts, x.utf8ByteSize ≤ b.text) {s : TaskState}
    {front back : List (Nat × Activity)} {thread : Nat} {a : Activity} {now : Nat} {asked : List Exchange}
    {u : Turn} (h : Crowd.Brief b ⟨s, front ++ (thread, a) :: back⟩ kept)
    (hu : (a.turn t thread now s).Comes asked u) (hasked : ∀ x ∈ asked, x.Brief b.text) :
    Crowd.Brief b.after ⟨u.shared, front ++ (u.activity?.map (thread, ·)).toList ++ back⟩
      (u.returned?.toList ++ kept) := by
  have ha : ∀ f ∈ a.frames, f.Brief b := h.threads (thread, a) (by simp)
  have hturn := Activity.turn_brief hb ht h.shared ha thread now asked u hu hasked
  refine ⟨hturn.shared, fun x hx f hf => ?_, fun v hv => ?_⟩
  · simp only [List.mem_append, Option.mem_toList, Option.map_eq_some_iff] at hx
    rcases hx with (hx | ⟨a', ha', rfl⟩) | hx
    · exact (h.threads x (by simp [hx]) f hf).mono b.le_after
    · exact hturn.frames f (frames_of_activity? ha' ▸ hf)
    · exact (h.threads x (by simp [hx]) f hf).mono b.le_after
  · rcases List.mem_append.1 hv with hv | hv
    · exact hturn.returned v (Option.mem_toList.1 hv)
    · exact (h.kept v hv).mono b.le_after

theorem call {t : Task} (ht : ∀ x ∈ t.unit.texts, x.utf8ByteSize ≤ b.text) {s : TaskState}
    {threads : List (Nat × Activity)} (thread : Nat) (className methodName : String) {arguments : List Value}
    (h : Crowd.Brief b ⟨s, threads⟩ kept) (harguments : ∀ v ∈ arguments, v.Brief b) :
    Crowd.Brief b ⟨(Activation.start t s className methodName arguments).2,
      (Activation.started t s className methodName arguments).map (thread, ·) ++ threads⟩ kept := by
  obtain ⟨hstart, hframe⟩ := Activation.start_brief ht h.shared className methodName harguments
  refine ⟨hstart, fun x hx f hf => ?_, h.kept⟩
  rcases List.mem_append.1 hx with hx | hx
  · obtain ⟨a, ha, rfl⟩ := List.mem_map.1 hx
    unfold Activation.started at ha
    split at ha
    · next g hg =>
      rw [List.mem_singleton.1 ha] at hf
      rw [List.mem_singleton.1 hf]
      exact hframe g hg
    · cases ha
  · exact h.threads x hx f hf

theorem begun {s : TaskState} {threads : List (Nat × Activity)} (h : Crowd.Brief b ⟨s, threads⟩ kept) :
    Crowd.Brief b ⟨s.takeStarting.2, threads ++ s.takeStarting.1.map fun x => (x.index, x.activity)⟩
      kept := by
  unfold TaskState.takeStarting
  split
  · simpa using h
  · refine ⟨h.shared.of_eq rfl rfl, fun x hx f hf => ?_, h.kept⟩
    rcases List.mem_append.1 hx with hx | hx
    · exact h.threads x hx f hf
    · simp only [List.map_map, List.mem_map] at hx
      obtain ⟨y, -, rfl⟩ := hx
      cases hf

theorem other {s s' : TaskState} {threads : List (Nat × Activity)} (h : Crowd.Brief b ⟨s, threads⟩ kept)
    (hobjects : s'.heap.objects = s.heap.objects ∨ s'.heap.objects = s.heap.objects.push [])
    (hrecordings : s.recordings.Brief b.text → s'.recordings.Brief b.text) :
    Crowd.Brief b.after ⟨s', threads⟩ kept := by
  have hwider := h.mono b.le_after
  have hheap : s'.heap.Brief b.after := by
    rcases hobjects with heq | heq
    · exact ⟨heq ▸ hwider.shared.heap.objects, heq ▸ hwider.shared.heap.fields⟩
    · have hname : "".utf8ByteSize ≤ b.text := Nat.zero_le _
      have hpushed := (h.shared.heap.newObject hname).2
      exact ⟨heq ▸ hpushed.objects, heq ▸ hpushed.fields⟩
  exact ⟨⟨hheap, hrecordings h.shared.recordings⟩, hwider.threads, hwider.kept⟩

end Crowd.Brief

/-! ### Runs -/

namespace Task.Proceeds

variable {t : Task} {limit n : Nat} {s₀ : TaskState} {c : Crowd} {kept : List Value}

/-- **Each turn keeps to limits that grow for messages alone.** -/
theorem brief (hmax : BinaryOp.maxTextBytes ≤ limit) (ht : ∀ x ∈ t.unit.texts, x.utf8ByteSize ≤ limit)
    (hs : s₀.Brief ⟨limit, limit, s₀.heap.objects.size⟩) (h : t.Proceeds limit s₀ n c kept) :
    c.Brief (.grown limit s₀.heap.objects.size n) kept := by
  have hwide (n : Nat) {objects : Nat}
      (hobjects : objects ≤ (Limits.grown limit s₀.heap.objects.size n).objects) :
      (⟨limit, limit, objects⟩ : Limits) ≤ .grown limit s₀.heap.objects.size n := by
    refine ⟨Nat.le_refl _, ?_, hobjects⟩
    show limit ≤ 2 * limit + s₀.heap.objects.size + 8 + n * (limit + 2)
    omega
  induction h with
  | start => exact ⟨hs.mono (hwide 0 (Nat.le_add_right _ _)), nofun, nofun⟩
  | turn h hu hasked ih =>
    rw [Limits.grown_succ]
    exact ih.turn (Limits.ample_grown hmax _ _) ht hu hasked
  | @call n s threads kept thread className methodName arguments h harguments ih =>
    have hvalues : ∀ v ∈ arguments, v.Brief (.grown limit s₀.heap.objects.size n) := fun v hv =>
      (harguments v hv).elim (ih.kept v) fun hgiven => hgiven.mono (hwide n ih.shared.heap.objects)
    rw [Limits.grown_succ]
    exact (ih.call ht thread className methodName hvalues).mono (Limits.le_after _)
  | begun h ih => exact ih.begun
  | other h hobjects hrecordings ih =>
    rw [Limits.grown_succ]
    exact ih.other hobjects hrecordings

/-- **The texts of a program keep to the limit that the texts of its unit, the host and the longest text that an operation
makes keep to**, however many turns its threads have. The messages of its exceptions keep to a limit that each turn
raises. -/
theorem texts_bounded (hmax : BinaryOp.maxTextBytes ≤ limit)
    (ht : ∀ x ∈ t.unit.texts, x.utf8ByteSize ≤ limit)
    (hs : s₀.Brief ⟨limit, limit, s₀.heap.objects.size⟩) (h : t.Proceeds limit s₀ n c kept) :
    ∀ v ∈ c.values, (∀ x, v = .text x → x.utf8ByteSize ≤ limit) ∧
      ∀ id e, v = .exception id e →
        e.message.utf8ByteSize ≤ (n + 2) * (limit + 4) + s₀.heap.objects.size := by
  intro v hv
  have hbrief := (h.brief hmax ht hs).values v hv
  refine ⟨?_, ?_⟩
  · rintro x rfl
    exact hbrief
  · rintro id e rfl
    have hmessage : e.message.utf8ByteSize ≤
        2 * limit + s₀.heap.objects.size + 8 + n * (limit + 2) := hbrief.2
    have hgrown : n * (limit + 2) ≤ n * (limit + 4) := Nat.mul_le_mul_left n (by omega)
    have hsplit : (n + 2) * (limit + 4) = n * (limit + 4) + 2 * (limit + 4) := Nat.add_mul ..
    omega

end Task.Proceeds

/-! ### Messages without a bound -/

namespace Growing

/-- A method that makes an exception from what it has made before, without an end. -/
def main : Method :=
  ⟨"main", true, [], 0,
    [.push (.text "x"), .label ⟨0⟩, .frame 1, .newException "E", .jump ⟨0⟩], []⟩

def classFile : ClassFile := ⟨"Main", none, [main]⟩

def task : Task := ⟨.ofClass classFile, ⟨0⟩, 0⟩

theorem built_unit : task.unit.Built := LoadingUnit.built_ofClass fun mode => by cases mode <;> rfl

/-- The text that is on the stack after so many exceptions: the message of the next one. -/
def message : Nat → String
  | 0 => "x"
  | k + 1 => "E" ++ ": " ++ message k

/-- The value that is on the stack after so many exceptions. -/
def value : Nat → Value
  | 0 => .text "x"
  | k + 1 => .exception k (.of "E" (message k))

theorem le_utf8ByteSize_message (k : Nat) : k < (message k).utf8ByteSize := by
  induction k with
  | zero => decide
  | succ k ih =>
    have hkind : ("E" ++ ": ").utf8ByteSize = 3 := by decide
    rw [message, String.utf8ByteSize_append]
    omega

theorem shown_value (k : Nat) : (value k).shown = message k := by
  cases k with
  | zero => rfl
  | succ k =>
    have hne : (message k).isEmpty = false := by
      have hsize := le_utf8ByteSize_message k
      rw [Bool.eq_false_iff, ne_eq, String.isEmpty_iff_utf8ByteSize_eq_zero]
      omega
    show (Exception.of "E" (message k)).text = _
    rw [Exception.text, Exception.of, hne]
    rfl

theorem value_ne_null (k : Nat) : value k ≠ .null := by
  cases k <;> nofun

def shared (k : Nat) : TaskState :=
  { (Activation.start task default "Main" "main" []).2 with heap := ⟨#[], k⟩ }

def frame (k next : Nat) : Frame := ⟨"Main", .ofMethod main, next, #[], .single (value k)⟩

theorem proceeds_next {limit n : Nat} {s s' : TaskState} {f f' : Frame} (hcancelled : s.cancelled = false)
    (h : task.Proceeds limit default n ⟨s, [(0, .running [f])]⟩ [])
    (hstep : Step.frame task 0 s f = .done (.next s' f')) :
    task.Proceeds limit default (n + 1) ⟨s', [(0, .running [f'])]⟩ [] := by
  have hturn : (Activity.running [f]).turn task 0 0 s = .done (.moved s' (.running [f'])) := by
    simp [Activity.turn, Activation.step, hcancelled, hstep, Query.map, Activation.finish,
      Turn.ofProgress]
  have hcomes := Query.Comes.done (Turn.moved s' (.running [f']))
  rw [← hturn] at hcomes
  exact @Task.Proceeds.turn task limit default n s [] [] 0 _ 0 [] _ [] h hcomes (List.forall_mem_nil _)

/-- The method makes an exception from the value on its stack. -/
theorem frame_newException (k : Nat) :
    Step.frame task 0 (shared k) (frame k 3) = .done (.next (shared (k + 1)) (frame (k + 1) 4)) := by
  have hmessage : (if value k = .null then "" else (value k).shown) = message k := by
    rw [if_neg (value_ne_null k), shown_value]
  have hi : (frame k 3).method.code[(frame k 3).next]? = some (.newException "E") := rfl
  have hpop : (frame k 3).stack.pop = .ok (value k, .empty) := rfl
  have hpush : OperandStack.empty.push (.exception k (.of "E" (message k))) = .ok (.single (value (k + 1))) :=
    rfl
  have hstep : Step.frame task 0 (shared k) (frame k 3) =
      Step.push (shared (k + 1)) { frame k 3 with next := 4 } .empty
        (.exception k (.of "E" (message k))) := by
    simp only [Step.frame, hi, Step.instruction, hpop, Step.attempt, hmessage]
    rfl
  rw [hstep, Step.push, hpush]
  rfl

/-- **Each round of the loop makes one exception.** -/
theorem proceeds_round {limit n k : Nat}
    (h : task.Proceeds limit default n ⟨shared k, [(0, .running [frame k 1])]⟩ []) :
    task.Proceeds limit default (n + 4) ⟨shared (k + 1), [(0, .running [frame (k + 1) 1])]⟩ [] := by
  have hlabel : task.Proceeds limit default (n + 1) ⟨shared k, [(0, .running [frame k 2])]⟩ [] :=
    proceeds_next rfl h rfl
  have hframe : task.Proceeds limit default (n + 2) ⟨shared k, [(0, .running [frame k 3])]⟩ [] :=
    proceeds_next rfl hlabel rfl
  have hmade := proceeds_next rfl hframe (frame_newException k)
  exact proceeds_next rfl hmade rfl

theorem proceeds_rounds (limit k : Nat) :
    task.Proceeds limit default (k * 4 + 2) ⟨shared k, [(0, .running [frame k 1])]⟩ [] := by
  induction k with
  | zero =>
    have hcalled : task.Proceeds limit default 1
        ⟨shared 0, [(0, .running [⟨"Main", .ofMethod main, 0, #[], .empty⟩])]⟩ [] :=
      @Task.Proceeds.call task limit default 0 default [] [] 0 "Main" "main" [] .start nofun
    exact proceeds_next rfl hcalled rfl
  | succ k ih =>
    rw [Nat.succ_mul]
    exact proceeds_round ih

theorem value_mem_values (k : Nat) :
    value k ∈ Crowd.values ⟨shared k, [(0, .running [frame k 1])]⟩ := by
  refine List.mem_append_right _ ?_
  simp [Activity.frames, frame, OperandStack.single]

theorem brief_default (b : Limits) : (default : TaskState).Brief b := ⟨⟨Nat.zero_le _, nofun⟩, nofun⟩

end Growing

theorem exists_limit (m : Nat) (l : List String) :
    ∃ limit, m ≤ limit ∧ ∀ x ∈ l, x.utf8ByteSize ≤ limit := by
  induction l with
  | nil => exact ⟨m, Nat.le_refl m, nofun⟩
  | cons x l ih =>
    obtain ⟨limit, hm, hl⟩ := ih
    refine ⟨max limit x.utf8ByteSize, hm.trans (Nat.le_max_left _ _), List.forall_mem_cons.2 ⟨?_, ?_⟩⟩
    · exact Nat.le_max_right _ _
    · exact fun y hy => (hl y hy).trans (Nat.le_max_left _ _)

/-- So do those of a program that has made an exception from a text. -/
theorem Task.Proceeds.texts_bounded_growing : ∃ limit, BinaryOp.maxTextBytes ≤ limit ∧
    (∀ x ∈ Growing.task.unit.texts, x.utf8ByteSize ≤ limit) ∧
    ∃ c, Growing.task.Proceeds limit default 6 c [] ∧ .exception 0 (.of "E" "x") ∈ c.values ∧
      ∀ v ∈ c.values, (∀ x, v = .text x → x.utf8ByteSize ≤ limit) ∧
        ∀ id e, v = .exception id e → e.message.utf8ByteSize ≤ (6 + 2) * (limit + 4) + 0 := by
  obtain ⟨limit, hmax, ht⟩ := exists_limit BinaryOp.maxTextBytes Growing.task.unit.texts
  have h := Growing.proceeds_rounds limit 1
  exact ⟨limit, hmax, ht, _, h, Growing.value_mem_values 1,
    Task.Proceeds.texts_bounded hmax ht (Growing.brief_default _) h⟩

/-- **No bound holds for all turns**, not even one that is chosen for the program. -/
theorem not_messages_bounded :
    ¬ ∀ (t : Task) (s₀ : TaskState) (limit : Nat), t.unit.Built → BinaryOp.maxTextBytes ≤ limit →
      (∀ x ∈ t.unit.texts, x.utf8ByteSize ≤ limit) → s₀.Brief ⟨limit, limit, s₀.heap.objects.size⟩ →
      ∃ bound, ∀ n c kept, t.Proceeds limit s₀ n c kept →
        ∀ v ∈ c.values, (∀ x, v = .text x → x.utf8ByteSize ≤ bound) ∧
          ∀ id e, v = .exception id e → e.message.utf8ByteSize ≤ bound := by
  intro hall
  obtain ⟨limit, hmax, ht⟩ := exists_limit BinaryOp.maxTextBytes Growing.task.unit.texts
  obtain ⟨bound, hbound⟩ :=
    hall Growing.task default limit Growing.built_unit hmax ht (Growing.brief_default _)
  have hvalue := hbound _ _ _ (Growing.proceeds_rounds limit (bound + 1)) _
    (Growing.value_mem_values (bound + 1))
  have hmessage := hvalue.2 bound _ rfl
  exact Nat.not_lt.2 hmessage (Growing.le_utf8ByteSize_message bound)

end Confine
