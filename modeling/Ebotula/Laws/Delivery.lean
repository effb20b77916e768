import Ebotula.Laws.Office
import Mathlib.Data.Finset.Card

/-!
# No command is lost

What the receipts of a run say, under every schedule of the main thread and the workers, with
every wake-up: the commands are taken in the order in which they were handed in, each of them
once, and a worker executes what it has taken. Nobody sleeps while there is more to do than the
workers that are awake have hands for. The one thing that can go wrong is the flush at the end.
-/

set_option autoImplicit false

namespace Ebotula

open Library

namespace Receipt

variable {n : Nat}

def command : Receipt n → QueueData
  | accepted command | taken _ command | flushed command => command

def isAccepted : Receipt n → Bool
  | accepted _ => true
  | taken .. | flushed _ => false

def isFlushed : Receipt n → Bool
  | flushed _ => true
  | accepted _ | taken .. => false

def isTakenBy (i : Fin n) : Receipt n → Bool
  | taken worker _ => worker = i
  | accepted _ | flushed _ => false

/-- The commands that were handed in. -/
def handedIn (seen : List (Receipt n)) : List QueueData := (seen.filter isAccepted).map command

/-- The commands that were taken out of the queue, by whomever. -/
def takenOut (seen : List (Receipt n)) : List QueueData := (seen.filter (!·.isAccepted)).map command

/-- The commands of one worker. -/
def takenBy (i : Fin n) (seen : List (Receipt n)) : List QueueData :=
  (seen.filter (isTakenBy i)).map command

theorem handedIn_append (seen later : List (Receipt n)) :
    handedIn (seen ++ later) = handedIn seen ++ handedIn later := by
  simp only [handedIn, List.filter_append, List.map_append]

theorem takenOut_append (seen later : List (Receipt n)) :
    takenOut (seen ++ later) = takenOut seen ++ takenOut later := by
  simp only [takenOut, List.filter_append, List.map_append]

theorem takenBy_append (i : Fin n) (seen later : List (Receipt n)) :
    takenBy i (seen ++ later) = takenBy i seen ++ takenBy i later := by
  simp only [takenBy, List.filter_append, List.map_append]

theorem takenBy_taken (i j : Fin n) (d : QueueData) :
    takenBy j [taken i d] = if i = j then [d] else [] := by
  by_cases h : i = j
  · simp [takenBy, isTakenBy, h, command]
  · simp [takenBy, isTakenBy, h]

end Receipt

/-- The event is a step of a worker. -/
def ThreadEvent.OfWorker {n : Nat} (e : ThreadEvent n) : Prop := ∃ i, e = .worker i

namespace Office

open Receipt

variable {n : Nat} {o o' : Office n} {e : ThreadEvent n} {seen : List (Receipt n)}

/-! ## What a step can do -/

/-- A worker goes on to `state` without taking a command. -/
inductive Goes (o : Office n) (i : Fin n) : WorkerState → Prop
  | returns (hi : o.workers i = .looking) (hstop : o.stop = true) : Goes o i .returned
  | asks (hi : o.workers i = .looking) (hstop : o.stop = false) : Goes o i .popping
  | waits (hi : o.workers i = .popping) (hqueue : o.queue = []) : Goes o i .waiting
  | looks {pCommand : Option QueueData} (hi : o.workers i = .executing pCommand) :
      Goes o i .looking
  | wakes (hi : o.workers i = .waiting) : Goes o i .popping

/-- The main thread goes on to `main` and touches nothing. -/
inductive MainGoes (o : Office n) : MainState → Prop
  | leaves (hmain : o.main = .looking) (hstop : o.stop = true) : MainGoes o .flushing
  | receives (hmain : o.main = .looking) (hstop : o.stop = false) : MainGoes o .receiving
  | looks (hmain : o.main = .receiving) : MainGoes o .looking
  | asks (hmain : o.main = .flushing) (hqueue : o.queue ≠ []) : MainGoes o .popping
  | ends (hmain : o.main = .flushing) (hqueue : o.queue = []) : MainGoes o .broadcasting
  | waits (hmain : o.main = .popping) (hqueue : o.queue = []) : MainGoes o .waiting
  | wakes (hmain : o.main = .waiting) : MainGoes o .popping
  | joins {worker : Nat} (hmain : o.main = .joining worker) (hworker : worker < n)
      (hreturned : o.workers ⟨worker, hworker⟩ = .returned) : MainGoes o (.joining (worker + 1))
  | stops {worker : Nat} (hmain : o.main = .joining worker) (hall : ¬ worker < n) :
      MainGoes o .done

/-- What a step can do, with the receipts for it. -/
inductive Effect (o : Office n) : List (Receipt n) → Office n → Prop
  | none : Effect o [] o
  | stop : Effect o [] { o with stop := true }
  | goes {i : Fin n} {state : WorkerState} (h : o.Goes i state) : Effect o [] (o.move i state)
  | takes {i : Fin n} {d : QueueData} {queue : List QueueData} (hi : o.workers i = .popping)
      (hqueue : o.queue = d :: queue) :
      Effect o [.taken i d] ({ o with queue }.move i (.executing (some d)))
  | mainGoes {main : MainState} (h : o.MainGoes main) : Effect o [] { o with main }
  | flushes {d : QueueData} {queue : List QueueData} (hmain : o.main = .popping)
      (hqueue : o.queue = d :: queue) :
      Effect o [.flushed d] { o with queue, main := .flushing }
  | broadcasts (hmain : o.main = .broadcasting) :
      Effect o [] { o with
        main := .joining 0
        workers := fun i => if o.workers i = .waiting then .popping else o.workers i }
  | accepts {d : QueueData} (hmain : o.main = .receiving) (hnobody : ∀ i, o.workers i ≠ .waiting) :
      Effect o [.accepted d] { o with queue := o.queue ++ [d] }
  | wakes {d : QueueData} {i : Fin n} (hmain : o.main = .receiving)
      (hi : o.workers i = .waiting) :
      Effect o [.accepted d] ({ o with queue := o.queue ++ [d] }.move i .popping)

theorem effect_worker {i : Fin n} {r : List (Receipt n)}
    (hserve : o.serveWorker i = some (r, o')) : o.Effect r o' := by
  unfold Office.serveWorker at hserve
  split at hserve
  · next hi =>
    cases hserve
    split
    · next hstop => exact .goes (.returns hi hstop)
    · next hstop => exact .goes (.asks hi (Bool.eq_false_of_not_eq_true hstop))
  · next hi =>
    split at hserve
    · next hqueue =>
      cases hserve
      exact .goes (.waits hi hqueue)
    · next hqueue =>
      cases hserve
      exact .takes hi hqueue
  · next hi =>
    cases hserve
    exact .goes (.looks hi)
  · cases hserve
  · cases hserve

theorem effect_main {r : List (Receipt n)} (hserve : o.serveMain = some (r, o')) :
    o.Effect r o' := by
  unfold Office.serveMain at hserve
  split at hserve
  · next hmain =>
    cases hserve
    split
    · next hstop => exact .mainGoes (.leaves hmain hstop)
    · next hstop => exact .mainGoes (.receives hmain (Bool.eq_false_of_not_eq_true hstop))
  · next hmain =>
    cases hserve
    exact .mainGoes (.looks hmain)
  · next hmain =>
    cases hserve
    split
    · next hqueue => exact .mainGoes (.ends hmain hqueue)
    · next hqueue => exact .mainGoes (.asks hmain hqueue)
  · next hmain =>
    split at hserve
    · next hqueue =>
      cases hserve
      exact .mainGoes (.waits hmain hqueue)
    · next hqueue =>
      cases hserve
      exact .flushes hmain hqueue
  · next hmain =>
    cases hserve
    exact .broadcasts hmain
  · next hmain =>
    split at hserve
    · next hworker =>
      obtain ⟨hreturned, he⟩ := Option.ite_none_right_eq_some.mp hserve
      cases he
      exact .mainGoes (.joins hmain hworker hreturned)
    · next hall =>
      cases hserve
      exact .mainGoes (.stops hmain hall)
  · cases hserve
  · cases hserve

/-- Every step is one of these. -/
theorem effect_of_step (hstep : o.step e = some o') : o.Effect (o.receipts e) o' := by
  have hserve := serve_of_step hstep
  generalize o.receipts e = r at hserve
  cases e with
  | setStop =>
    cases hserve
    exact .stop
  | worker i => exact effect_worker hserve
  | wake i =>
    obtain ⟨hi, he⟩ := Option.ite_none_right_eq_some.mp hserve
    cases he
    exact .goes (.wakes hi)
  | main => exact effect_main hserve
  | wakeMain =>
    obtain ⟨hmain, he⟩ := Option.ite_none_right_eq_some.mp hserve
    cases he
    exact .mainGoes (.wakes hmain)
  | push mallocs command woken =>
    obtain ⟨hmain, he⟩ := Option.ite_none_right_eq_some.mp hserve
    split at he
    · cases he
      exact .none
    · obtain ⟨o₁, hsignal, he⟩ := Option.map_eq_some_iff.mp he
      cases he
      cases woken with
      | none =>
        obtain ⟨hnobody, he⟩ := Option.ite_none_right_eq_some.mp hsignal
        cases he
        exact .accepts hmain hnobody
      | some i =>
        obtain ⟨hi, he⟩ := Option.ite_none_right_eq_some.mp hsignal
        cases he
        exact .wakes hmain hi

/-! ## The receipts -/

/-- What the receipts say about where a run has come to. -/
structure Keeps (seen : List (Receipt n)) (o : Office n) : Prop where
  fifo : handedIn seen = takenOut seen ++ o.queue
  executing : ∀ i r, o.workers i = .executing r →
    ∃ d, r = some d ∧ (takenBy i seen).getLast? = some d
  flushes : seen.any isFlushed → o.main.stopped
  emptied : o.main.emptied → o.queue = []

theorem keeps_init : Keeps [] (init n) where
  fifo := rfl
  executing _ _ h := by cases h
  flushes h := by cases h
  emptied h := by cases h

/-- A worker that goes on without the queue, and does not begin to execute. -/
theorem Keeps.move {i : Fin n} {state : WorkerState} (h : Keeps seen o)
    (hstate : ∀ r, state ≠ .executing r) : Keeps seen (o.move i state) where
  fifo := h.fifo
  executing j r hj := by
    simp only [Office.move, Function.update_apply] at hj
    split at hj
    · exact absurd hj (hstate r)
    · exact h.executing j r hj
  flushes := h.flushes
  emptied := h.emptied

/-- The main thread goes on without the queue. -/
theorem Keeps.moveMain {main : MainState} (h : Keeps seen o)
    (hstopped : o.main.stopped → main.stopped) (hemptied : main.emptied → o.queue = []) :
    Keeps seen { o with main } where
  fifo := h.fifo
  executing := h.executing
  flushes hs := hstopped (h.flushes hs)
  emptied := hemptied

/-- A worker takes the oldest command. -/
theorem Keeps.take {i : Fin n} {d : QueueData} {queue : List QueueData} (h : Keeps seen o)
    (hqueue : o.queue = d :: queue) :
    Keeps (seen ++ [.taken i d]) ({ o with queue }.move i (.executing (some d))) where
  fifo := by
    have hin : handedIn (seen ++ [.taken i d]) = handedIn seen :=
      (handedIn_append ..).trans (List.append_nil _)
    have hout : takenOut (seen ++ [.taken i d]) = takenOut seen ++ [d] := takenOut_append ..
    rw [hin, hout, h.fifo, hqueue, List.append_assoc]
    rfl
  executing j r hj := by
    rw [takenBy_append, takenBy_taken]
    simp only [Office.move, Function.update_apply] at hj
    by_cases hji : j = i
    · rw [if_pos hji] at hj
      cases hj
      exact ⟨d, rfl, by rw [if_pos hji.symm, List.getLast?_concat]⟩
    · rw [if_neg hji] at hj
      rw [if_neg (Ne.symm hji), List.append_nil]
      exact h.executing j r hj
  flushes hs := h.flushes (by simpa [isFlushed] using hs)
  emptied he := by
    rw [h.emptied he] at hqueue
    cases hqueue

/-- The main thread takes the oldest command and throws it away. -/
theorem Keeps.flush {d : QueueData} {queue : List QueueData} (h : Keeps seen o)
    (hqueue : o.queue = d :: queue) :
    Keeps (seen ++ [.flushed d]) { o with queue, main := .flushing } where
  fifo := by
    have hin : handedIn (seen ++ [.flushed d]) = handedIn seen :=
      (handedIn_append ..).trans (List.append_nil _)
    have hout : takenOut (seen ++ [.flushed d]) = takenOut seen ++ [d] := takenOut_append ..
    rw [hin, hout, h.fifo, hqueue, List.append_assoc]
    rfl
  executing j r hj := by
    have hnone : takenBy j (seen ++ [.flushed d]) = takenBy j seen :=
      (takenBy_append ..).trans (List.append_nil _)
    rw [hnone]
    exact h.executing j r hj
  flushes _ := rfl
  emptied he := by cases he

/-- A command is handed in. -/
theorem Keeps.handIn {d : QueueData} (h : Keeps seen o) (hmain : o.main = .receiving) :
    Keeps (seen ++ [.accepted d]) { o with queue := o.queue ++ [d] } where
  fifo := by
    rw [handedIn_append, takenOut_append, h.fifo, List.append_assoc]
    exact congrArg (· ++ (o.queue ++ [d])) (List.append_nil _).symm
  executing j r hj := by
    have hnone : takenBy j (seen ++ [.accepted d]) = takenBy j seen :=
      (takenBy_append ..).trans (List.append_nil _)
    rw [hnone]
    exact h.executing j r hj
  flushes hs := h.flushes (by simpa [isFlushed] using hs)
  emptied he := by
    rw [hmain] at he
    cases he

/-- Every step keeps what the receipts say. -/
theorem Keeps.step (h : Keeps seen o) (hstep : o.step e = some o') :
    Keeps (seen ++ o.receipts e) o' := by
  have same {o' : Office n} (h' : Keeps seen o') : Keeps (seen ++ []) o' := by
    rwa [List.append_nil]
  have effect := effect_of_step hstep
  generalize o.receipts e = r at effect
  cases effect with
  | none => exact same h
  | stop => exact same ⟨h.fifo, h.executing, h.flushes, h.emptied⟩
  | goes hgoes =>
    refine same (h.move fun r hr => ?_)
    cases hgoes <;> cases hr
  | takes _ hqueue => exact h.take hqueue
  | mainGoes hgoes =>
    refine same (h.moveMain (fun hs => ?_) fun he => ?_)
    · cases hgoes with
      | receives hmain | looks hmain =>
        rw [hmain] at hs
        cases hs
      | leaves | asks | ends | waits | wakes | joins | stops => rfl
    · cases hgoes with
      | ends _ hqueue => exact hqueue
      | joins hmain | stops hmain => exact h.emptied (by rw [hmain]; rfl)
      | leaves | receives | looks | asks | waits | wakes => cases he
  | flushes _ hqueue => exact h.flush hqueue
  | broadcasts hmain =>
    refine same ⟨h.fifo, fun i r hi => ?_, fun _ => rfl, fun _ => h.emptied (by rw [hmain]; rfl)⟩
    dsimp only at hi
    split at hi
    · cases hi
    · exact h.executing i r hi
  | accepts hmain => exact h.handIn hmain
  | wakes hmain => exact (h.handIn hmain).move fun _ h => by cases h

/-! ## Wake-ups -/

/-- The workers that are awake in front of the queue. -/
def awake (o : Office n) : Finset (Fin n) := Finset.univ.filter fun i => o.workers i = .popping

/-- While somebody waits, there are enough workers awake for all that is to do. -/
def Attended (o : Office n) : Prop :=
  (∃ i, o.workers i = .waiting) → o.queue.length ≤ o.awake.card

theorem mem_awake {i : Fin n} : i ∈ o.awake ↔ o.workers i = .popping := by
  rw [awake, Finset.mem_filter]
  exact and_iff_right (Finset.mem_univ i)

theorem awake_move (i : Fin n) (state : WorkerState) : (o.move i state).awake =
    if state = .popping then insert i o.awake else o.awake.erase i := by
  ext j
  rw [mem_awake]
  simp only [Office.move, Function.update_apply]
  by_cases hj : j = i
  · by_cases hs : state = .popping <;> simp [hj, hs]
  · by_cases hs : state = .popping <;> simp [hj, hs, mem_awake]

/-- A worker that still waits after another has gone on has waited before. -/
theorem waiting_of_move {i : Fin n} {state : WorkerState} (hstate : state ≠ .waiting)
    (h : ∃ j, (o.move i state).workers j = .waiting) : ∃ j, o.workers j = .waiting := by
  obtain ⟨j, hj⟩ := h
  simp only [Office.move, Function.update_apply] at hj
  split at hj
  · exact absurd hj hstate
  · exact ⟨j, hj⟩

/-- A worker that was not in front of the queue goes on to another state than waiting. -/
theorem Attended.move {i : Fin n} {state : WorkerState} (h : o.Attended)
    (hi : o.workers i ≠ .popping) (hstate : state ≠ .waiting) : (o.move i state).Attended := by
  intro hwait
  refine (h (waiting_of_move hstate hwait)).trans (Finset.card_le_card ?_)
  rw [awake_move]
  split
  · exact Finset.subset_insert i o.awake
  · rw [Finset.erase_eq_of_notMem fun hmem => hi (mem_awake.mp hmem)]

theorem Attended.step (h : o.Attended) (hstep : o.step e = some o') : o'.Attended := by
  have effect := effect_of_step hstep
  generalize o.receipts e = r at effect
  cases effect with
  | none | stop | mainGoes => exact h
  | goes hgoes =>
    cases hgoes with
    | returns hi | asks hi | looks hi | wakes hi =>
      exact h.move (fun hp => by rw [hi] at hp; cases hp) fun h => by cases h
    | waits hi hqueue =>
      intro _
      show o.queue.length ≤ _
      rw [hqueue]
      exact Nat.zero_le _
  | @takes i d queue hi hqueue =>
    intro hwait
    have hle := h (waiting_of_move (fun h => by cases h) hwait)
    have hcard : ({ o with queue }.move i (.executing (some d))).awake.card =
        o.awake.card - 1 := by
      rw [awake_move, if_neg fun h => by cases h]
      exact Finset.card_erase_of_mem (mem_awake.mpr hi)
    rw [hcard]
    rw [hqueue, List.length_cons] at hle
    exact Nat.le_sub_one_of_lt hle
  | flushes _ hqueue =>
    intro hwait
    have hle := h hwait
    rw [hqueue, List.length_cons] at hle
    exact Nat.le_of_succ_le hle
  | broadcasts =>
    -- the broadcast leaves nobody waiting
    rintro ⟨i, hi⟩
    dsimp only at hi
    split at hi
    · cases hi
    · next hne => exact absurd hi hne
  | accepts _ hnobody =>
    rintro ⟨i, hi⟩
    exact absurd hi (hnobody i)
  | @wakes d i _ hi =>
    -- the signal wakes one more worker for the command
    intro _
    have hle := h ⟨i, hi⟩
    have hnot : i ∉ o.awake := fun hmem => by
      rw [mem_awake.mp hmem] at hi
      cases hi
    rw [awake_move, if_pos rfl]
    show (o.queue ++ [d]).length ≤ (insert i o.awake).card
    rw [Finset.card_insert_of_notMem hnot, List.length_append]
    exact Nat.succ_le_succ hle

/-! ## The workers alone -/

/-- No worker has returned but after `stop` was set. -/
def Employed (o : Office n) : Prop := ∀ i, o.workers i = .returned → o.stop = true

theorem Employed.move {i : Fin n} {state : WorkerState} (h : o.Employed)
    (hstate : state = .returned → o.stop = true) : (o.move i state).Employed := by
  intro j hj
  simp only [Office.move, Function.update_apply] at hj
  split at hj
  · exact hstate hj
  · exact h j hj

theorem Employed.step (h : o.Employed) (hstep : o.step e = some o') : o'.Employed := by
  have effect := effect_of_step hstep
  generalize o.receipts e = r at effect
  cases effect with
  | none | mainGoes | flushes | accepts => exact h
  | stop => exact fun _ _ => rfl
  | goes hgoes =>
    refine h.move fun hreturned => ?_
    cases hgoes with
    | returns _ hstop => exact hstop
    | asks | waits | looks | wakes => cases hreturned
  | @takes i d queue =>
    exact Employed.move (o := { o with queue }) h fun h => by cases h
  | broadcasts =>
    intro i hi
    dsimp only at hi
    split at hi
    · cases hi
    · exact h i hi
  | @wakes d i =>
    exact Employed.move (o := { o with queue := o.queue ++ [d] }) h fun h => by cases h

/-- The workers alone get the office to another one. -/
def Reaches (o o' : Office n) : Prop := ∃ es, Run Office.step (fun _ e => e.OfWorker) o es o'

theorem Reaches.of_serveWorker {i : Fin n} {r : List (Receipt n)} {o₁ : Office n}
    (hserve : o.serveWorker i = some (r, o₁)) (h : o₁.Reaches o') : o.Reaches o' := by
  obtain ⟨es, run⟩ := h
  have hs : o.serve (.worker i) = some (r, o₁) := hserve
  exact ⟨.worker i :: es, .cons ⟨i, rfl⟩ (step_of_serve hs).1 run⟩

variable {d : QueueData} {queue : List QueueData} {i : Fin n}

theorem reaches_of_popping (hi : o.workers i = .popping) (hqueue : o.queue = d :: queue) :
    ∃ o', o.Reaches o' ∧ o'.queue = queue ∧ o'.stop = o.stop := by
  have hserve : o.serveWorker i =
      some ([.taken i d], { o with queue }.move i (.executing (some d))) := by
    rw [Office.serveWorker, hi]
    dsimp only
    rw [hqueue]
  exact ⟨_, .of_serveWorker hserve ⟨[], .nil _⟩, rfl, rfl⟩

theorem reaches_of_looking (hi : o.workers i = .looking) (hstop : o.stop = false)
    (hqueue : o.queue = d :: queue) :
    ∃ o', o.Reaches o' ∧ o'.queue = queue ∧ o'.stop = o.stop := by
  have hserve : o.serveWorker i = some ([], o.move i .popping) := by
    rw [Office.serveWorker, hi, hstop]
    rfl
  have hpopping : (o.move i .popping).workers i = .popping := Function.update_self ..
  obtain ⟨o', reaches, hrest⟩ := reaches_of_popping hpopping hqueue
  exact ⟨o', .of_serveWorker hserve reaches, hrest⟩

theorem reaches_of_executing {pCommand : Option QueueData}
    (hi : o.workers i = .executing pCommand) (hstop : o.stop = false)
    (hqueue : o.queue = d :: queue) :
    ∃ o', o.Reaches o' ∧ o'.queue = queue ∧ o'.stop = o.stop := by
  have hserve : o.serveWorker i = some ([], o.move i .looking) := by
    rw [Office.serveWorker, hi]
  have hlooking : (o.move i .looking).workers i = .looking := Function.update_self ..
  obtain ⟨o', reaches, hrest⟩ := reaches_of_looking hlooking hstop hqueue
  exact ⟨o', .of_serveWorker hserve reaches, hrest⟩

/-- As long as `stop` is not set, some worker can take the oldest command. -/
theorem reaches_taken (hn : 0 < n) (attended : o.Attended) (employed : o.Employed)
    (hstop : o.stop = false) (hqueue : o.queue = d :: queue) :
    ∃ o', o.Reaches o' ∧ o'.queue = queue ∧ o'.stop = o.stop := by
  by_cases hwait : ∃ i, o.workers i = .waiting
  · -- somebody waits, so others are awake
    have hle := attended hwait
    rw [hqueue, List.length_cons] at hle
    obtain ⟨i, hi⟩ := Finset.card_pos.mp (Nat.lt_of_lt_of_le (Nat.succ_pos _) hle)
    exact reaches_of_popping (mem_awake.mp hi) hqueue
  · cases hi : o.workers ⟨0, hn⟩ with
    | looking => exact reaches_of_looking hi hstop hqueue
    | popping => exact reaches_of_popping hi hqueue
    | waiting => exact absurd ⟨_, hi⟩ hwait
    | executing pCommand => exact reaches_of_executing hi hstop hqueue
    | returned =>
      rw [employed _ hi] at hstop
      cases hstop

/-- And one after the other they take all of them. -/
theorem reaches_empty (hn : 0 < n) (attended : o.Attended) (employed : o.Employed)
    (hstop : o.stop = false) : ∃ o', o.Reaches o' ∧ o'.queue = [] := by
  generalize hqueue : o.queue = queue
  induction queue generalizing o with
  | nil => exact ⟨o, ⟨[], .nil o⟩, hqueue⟩
  | cons d queue ih =>
    obtain ⟨o₁, ⟨es, run⟩, hqueue₁, hstop₁⟩ := reaches_taken hn attended employed hstop hqueue
    have attended₁ : o₁.Attended :=
      run.invariant (I := Office.Attended) (fun _ _ _ h _ hstep => h.step hstep) attended
    have employed₁ : o₁.Employed :=
      run.invariant (I := Office.Employed) (fun _ _ _ h _ hstep => h.step hstep) employed
    obtain ⟨o', ⟨es', run'⟩, hempty⟩ := ih attended₁ employed₁ (hstop₁.trans hstop) hqueue₁
    exact ⟨o', ⟨es ++ es', run.append run'⟩, hempty⟩

/-! ## The flush -/

/-- The main thread is in the `popQueue` of `flushQueue`, and there is nothing left to pop. -/
def Stuck (o : Office n) : Prop := (o.main = .popping ∨ o.main = .waiting) ∧ o.queue = []

/-- Nobody hands in a command any more, so the main thread stays where it is. -/
theorem Stuck.step (h : o.Stuck) (hstep : o.step e = some o') : o'.Stuck := by
  obtain ⟨hmain, hqueue⟩ := h
  have busy {main : MainState} (h : o.main = main) (hpop : main ≠ .popping)
      (hwait : main ≠ .waiting) : o'.Stuck := by
    rw [h] at hmain
    exact absurd hmain (not_or.mpr ⟨hpop, hwait⟩)
  have effect := effect_of_step hstep
  generalize o.receipts e = r at effect
  cases effect with
  | none | stop | goes => exact ⟨hmain, hqueue⟩
  | takes _ hd | flushes _ hd =>
    rw [hqueue] at hd
    cases hd
  | mainGoes hgoes =>
    cases hgoes with
    | waits => exact ⟨.inr rfl, hqueue⟩
    | wakes => exact ⟨.inl rfl, hqueue⟩
    | leaves hm | receives hm | looks hm | asks hm | ends hm | joins hm | stops hm =>
      exact busy hm (fun h => by cases h) fun h => by cases h
  | broadcasts hm | accepts hm | wakes hm =>
    exact busy hm (fun h => by cases h) fun h => by cases h

/-- The main thread waits for nothing but an empty queue. -/
def WaitsEmpty (o : Office n) : Prop := o.main = .waiting → o.queue = []

theorem WaitsEmpty.step (h : o.WaitsEmpty) (hstep : o.step e = some o') : o'.WaitsEmpty := by
  have effect := effect_of_step hstep
  generalize o.receipts e = r at effect
  cases effect with
  | none | stop | goes => exact h
  | takes _ hqueue =>
    intro hm
    rw [h hm] at hqueue
    cases hqueue
  | mainGoes hgoes =>
    intro hm
    cases hgoes with
    | waits _ hqueue => exact hqueue
    | leaves | receives | looks | asks | ends | wakes | joins | stops => cases hm
  | flushes | broadcasts => exact fun hm => by cases hm
  | accepts hmain | wakes hmain =>
    intro hm
    rw [show o.main = .waiting from hm] at hmain
    cases hmain

/-- The main thread can still return from `flushQueue`. -/
def CanFlush (o : Office n) : Prop :=
  ∃ es o', Run Office.step (fun _ _ => True) o es o' ∧ o'.main.flushed

theorem CanFlush.of_step (hstep : o.step e = some o') (h : o'.CanFlush) : o.CanFlush := by
  obtain ⟨es, o'', run, hflushed⟩ := h
  exact ⟨e :: es, o'', .cons trivial hstep run, hflushed⟩

/-- A step of the main thread. -/
theorem CanFlush.of_main {r : List (Receipt n)} (hserve : o.serveMain = some (r, o'))
    (h : o'.CanFlush) : o.CanFlush := by
  have hs : o.serve .main = some (r, o') := hserve
  exact .of_step (step_of_serve hs).1 h

theorem canFlush_broadcasting (h : o.main = .broadcasting) : o.CanFlush := by
  have hserve : ∃ o', o.serveMain = some ([], o') ∧ o'.main = .joining 0 := by
    rw [serveMain, h]
    exact ⟨_, rfl, rfl⟩
  obtain ⟨o', hserve, hjoining⟩ := hserve
  exact .of_main hserve ⟨[], o', .nil _, by rw [hjoining]; rfl⟩

/-- The main thread on its own empties the queue. -/
theorem canFlush_flushing (h : o.main = .flushing) : o.CanFlush := by
  generalize hqueue : o.queue = queue
  induction queue generalizing o with
  | nil =>
    have hserve : o.serveMain = some ([], { o with main := .broadcasting }) := by
      rw [serveMain, h]
      dsimp only
      rw [if_pos hqueue]
    exact .of_main hserve (canFlush_broadcasting rfl)
  | cons d queue ih =>
    have hlook : o.serveMain = some ([], { o with main := .popping }) := by
      rw [serveMain, h]
      dsimp only
      rw [if_neg fun he => by rw [hqueue] at he; cases he]
    have hpop : ({ o with main := .popping } : Office n).serveMain =
        some ([.flushed d], { o with queue, main := .flushing }) := by
      rw [serveMain]
      dsimp only
      rw [hqueue]
    exact .of_main hlook (.of_main hpop (ih rfl rfl))

/-- As long as it is not stuck, the main thread can still return from `flushQueue`. -/
theorem canFlush_of_not_stuck (hwaits : o.WaitsEmpty) (h : ¬ o.Stuck) : o.CanFlush := by
  have looking {o : Office n} (hm : o.main = .looking) : o.CanFlush := by
    have hlook : ({ o with stop := true } : Office n).serveMain =
        some ([], { o with stop := true, main := .flushing }) := by
      rw [serveMain]
      dsimp only
      rw [hm]
      rfl
    exact .of_step (e := .setStop) rfl (.of_main hlook (canFlush_flushing rfl))
  have flushed (hf : o.main.flushed) : o.CanFlush := ⟨[], o, .nil _, hf⟩
  cases hm : o.main with
  | looking => exact looking hm
  | receiving =>
    have hserve : o.serveMain = some ([], { o with main := .looking }) := by
      rw [serveMain, hm]
    exact .of_main hserve (looking rfl)
  | flushing => exact canFlush_flushing hm
  | popping =>
    cases hqueue : o.queue with
    | nil => exact absurd ⟨.inl hm, hqueue⟩ h
    | cons d queue =>
      have hserve : o.serveMain = some ([.flushed d], { o with queue, main := .flushing }) := by
        rw [serveMain, hm]
        dsimp only
        rw [hqueue]
      exact .of_main hserve (canFlush_flushing rfl)
  | waiting => exact absurd ⟨.inr hm, hwaits hm⟩ h
  | broadcasting => exact canFlush_broadcasting hm
  | joining worker => exact flushed (by rw [hm]; rfl)
  | done => exact flushed (by rw [hm]; rfl)

theorem canFlush_iff (hwaits : o.WaitsEmpty) : o.CanFlush ↔ ¬ o.Stuck := by
  refine ⟨?_, canFlush_of_not_stuck hwaits⟩
  rintro ⟨es, o', run, hflushed⟩ hstuck
  have stuck : o'.Stuck :=
    run.invariant (I := Office.Stuck) (fun _ _ _ h _ hstep => h.step hstep) hstuck
  obtain ⟨hmain, -⟩ := stuck
  rcases hmain with hm | hm
  · rw [hm] at hflushed
    cases hflushed
  · rw [hm] at hflushed
    cases hflushed

end Office

namespace Process

open Receipt

variable {n : Nat} {p : Process n} {es : List (ThreadEvent n)}

theorem Represents.isemptyQueue_iff {o : Office n} (h : p.Represents o) :
    isemptyQueue p.heap (some p.pCommandQueue) = some true ↔ o.queue = [] := by
  obtain ⟨l, hring⟩ := h.ring
  obtain ⟨empty, hempty, hnot⟩ := Option.map_eq_some_iff.mp hring.isfullQueue
  rw [hempty, Bool.not_inj hnot, Option.some_inj, List.isEmpty_iff]

/-- Every command is delivered at most once and in order. In every run of the main thread and
the workers, the commands that were handed in are those that were taken out, in the same order,
and behind them what is in the ring. A worker executes the last command it has taken, the main
thread takes one only to throw it away once it has left its loop, and it broadcasts only after the
last one. -/
theorem delivers_in_order (run : Run Process.step Any (init n) es p) :
    ∃ l queue, p.heap.Ring p.pCommandQueue l queue ∧
      handedIn (observed Process.step receipts (init n) es) =
        takenOut (observed Process.step receipts (init n) es) ++ queue ∧
      (∀ i r, p.workers i = .executing r → ∃ d, r = some d ∧
        (takenBy i (observed Process.step receipts (init n) es)).getLast? = some d) ∧
      ((observed Process.step receipts (init n) es).any isFlushed → p.main.stopped) ∧
      (p.main.emptied → queue = []) := by
  obtain ⟨o, run', ⟨⟨l, hring⟩, -, hmain, hworkers⟩, hseen⟩ := init_represents.run run
  have kept : Office.Keeps ([] ++ observed Office.step Office.receipts (.init n) es) o :=
    run'.history (I := Office.Keeps) (fun _ _ _ _ h _ hstep => h.step hstep) Office.keeps_init
  rw [List.nil_append, ← hseen] at kept
  rw [hmain, hworkers]
  exact ⟨l, o.queue, hring, kept.fifo, kept.executing, kept.flushes, kept.emptied⟩

/-- A command without data. -/
def emptyCommand : QueueElement := ⟨0, none⟩

/-- Both workers wait, and the first of them is woken for a command. -/
def wakesFirst : List (ThreadEvent 2) :=
  [.worker 0, .worker 0, .worker 1, .worker 1, .main,
    .push ⟨true, true, true⟩ emptyCommand (some 0)]

theorem delivers_in_order_wakesFirst : ∃ p : Process 2,
    p.workers 0 = .executing (some (copyOf emptyCommand)) ∧
      (takenBy 0 (observed Process.step receipts (init 2) (wakesFirst ++ [.worker 0]))).getLast? =
        some (copyOf emptyCommand) := by
  have hend : (Run.steps Process.step (fun _ _ => true) (init 2) (wakesFirst ++ [.worker 0])).map
      (fun p => p.workers 0) = some (.executing (some (copyOf emptyCommand))) := by decide +kernel
  obtain ⟨p, hsteps, hp⟩ := Option.map_eq_some_iff.mp hend
  have run : Run Process.step Any (init 2) (wakesFirst ++ [.worker 0]) p :=
    (Run.of_steps hsteps).mono fun _ _ _ => trivial
  obtain ⟨-, -, -, -, hexecuting, -, -⟩ := delivers_in_order run
  obtain ⟨d, hd, hlast⟩ := hexecuting 0 _ hp
  exact ⟨p, hp, hlast.trans hd.symm⟩

/-- No wake-up is lost. Whenever a worker waits, there are at least as many workers awake in
front of the queue as commands in it; so while all of them wait there is nothing to do. -/
theorem no_wakeup_lost (run : Run Process.step Any (init n) es p) :
    ∃ l queue, p.heap.Ring p.pCommandQueue l queue ∧
      ((∃ i, p.workers i = .waiting) →
        queue.length ≤ (Finset.univ.filter fun i => p.workers i = .popping).card) := by
  obtain ⟨o, run', ⟨⟨l, hring⟩, -, -, hworkers⟩, -⟩ := init_represents.run run
  have attended : o.Attended := run'.invariant (I := Office.Attended)
    (fun _ _ _ h _ hstep => h.step hstep) (by rintro ⟨_, ⟨⟩⟩)
  rw [hworkers]
  exact ⟨l, o.queue, hring, attended⟩

theorem no_wakeup_lost_wakesFirst : ∃ p : Process 2, p.workers 1 = .waiting ∧
    ∃ l queue, p.heap.Ring p.pCommandQueue l queue ∧
      queue.length ≤ (Finset.univ.filter fun i => p.workers i = .popping).card := by
  have hend : (Run.steps Process.step (fun _ _ => true) (init 2) wakesFirst).map
      (fun p => p.workers 1) = some .waiting := by decide +kernel
  obtain ⟨p, hsteps, hp⟩ := Option.map_eq_some_iff.mp hend
  have run : Run Process.step Any (init 2) wakesFirst p :=
    (Run.of_steps hsteps).mono fun _ _ _ => trivial
  obtain ⟨l, queue, hring, hle⟩ := no_wakeup_lost run
  exact ⟨p, hp, l, queue, hring, hle ⟨1, hp⟩⟩

/-- Until `stop` is set the workers are enough. From every state that is reached by then, they can
take all commands that lie in the queue with no step of the main thread, no push and no other
wake-up, and then every command that was ever handed in has been taken, each once and in order. -/
theorem workers_drain (hn : 0 < n) (run : Run Process.step Any (init n) es p)
    (hstop : p.stop = false) :
    ∃ es' p', Run Process.step (fun _ e => e.OfWorker) p es' p' ∧
      isemptyQueue p'.heap (some p'.pCommandQueue) = some true ∧
      takenOut (observed Process.step receipts (init n) (es ++ es')) =
        handedIn (observed Process.step receipts (init n) (es ++ es')) := by
  obtain ⟨o, run₀, represents, -⟩ := init_represents.run run
  have attended : o.Attended := run₀.invariant (I := Office.Attended)
    (fun _ _ _ h _ hstep => h.step hstep) (by rintro ⟨_, ⟨⟩⟩)
  have employed : o.Employed := run₀.invariant (I := Office.Employed)
    (fun _ _ _ h _ hstep => h.step hstep) fun _ h => by cases h
  obtain ⟨o', ⟨es', run'⟩, hempty⟩ :=
    Office.reaches_empty hn attended employed (represents.stop ▸ hstop)
  obtain ⟨p', alone, represents'⟩ := represents.serves run'
  have whole : Run Process.step Any (init n) (es ++ es') p' :=
    run.append (alone.mono fun _ _ _ => trivial)
  obtain ⟨o'', run'', represents'', hseen⟩ := init_represents.run whole
  have kept : Office.Keeps ([] ++ observed Office.step Office.receipts (.init n) (es ++ es')) o'' :=
    run''.history (I := Office.Keeps) (fun _ _ _ _ h _ hstep => h.step hstep) Office.keeps_init
  rw [List.nil_append, ← hseen] at kept
  have hdrained := represents'.isemptyQueue_iff.mpr hempty
  refine ⟨es', p', alone, hdrained, ?_⟩
  rw [kept.fifo, represents''.isemptyQueue_iff.mp hdrained, List.append_nil]

theorem workers_drain_wakesFirst : ∃ p : Process 2,
    isemptyQueue p.heap (some p.pCommandQueue) = some false ∧
      ∃ es' p', Run Process.step (fun _ e => e.OfWorker) p es' p' ∧
        isemptyQueue p'.heap (some p'.pCommandQueue) = some true := by
  have hend : (Run.steps Process.step (fun _ _ => true) (init 2) wakesFirst).map
      (fun p => (p.stop, isemptyQueue p.heap (some p.pCommandQueue))) =
        some (false, some false) := by decide +kernel
  obtain ⟨p, hsteps, hp⟩ := Option.map_eq_some_iff.mp hend
  obtain ⟨hstop, hfull⟩ := Prod.mk.inj hp
  have run : Run Process.step Any (init 2) wakesFirst p :=
    (Run.of_steps hsteps).mono fun _ _ _ => trivial
  obtain ⟨es', p', alone, hdrained, -⟩ := workers_drain Nat.two_pos run hstop
  exact ⟨p, hfull, es', p', alone, hdrained⟩

/-- The main thread can still return from `flushQueue` unless it is in the `popQueue` of it while
the queue is empty. It comes there if a worker takes the last command after `isfullQueue` has been
asked, and stays there for ever, whatever the threads do and however often it wakes up. -/
theorem flush_can_end_iff (run : Run Process.step Any (init n) es p) :
    (∃ es' p', Run Process.step Any p es' p' ∧ p'.main.flushed) ↔
      ¬ ((p.main = .popping ∨ p.main = .waiting) ∧
        isemptyQueue p.heap (some p.pCommandQueue) = some true) := by
  obtain ⟨o, run', represents, -⟩ := init_represents.run run
  have hwaits : o.WaitsEmpty := run'.invariant (I := Office.WaitsEmpty)
    (fun _ _ _ h _ hstep => h.step hstep) fun hm => by cases hm
  have hstuck : o.Stuck ↔ (p.main = .popping ∨ p.main = .waiting) ∧
      isemptyQueue p.heap (some p.pCommandQueue) = some true := by
    rw [represents.main, represents.isemptyQueue_iff]
    rfl
  rw [← hstuck, ← Office.canFlush_iff hwaits]
  constructor
  · rintro ⟨es', p', run'', hflushed⟩
    obtain ⟨o', run₁, h', -⟩ := represents.run run''
    exact ⟨es', o', run₁, h'.main ▸ hflushed⟩
  · rintro ⟨es', o', run'', hflushed⟩
    obtain ⟨p', run₁, h'⟩ := represents.serves run''
    exact ⟨es', p', run₁, by rw [h'.main]; exact hflushed⟩

/-- The main thread finds a command, leaves its loop and asks `isfullQueue`. Then the worker takes
the command. -/
def takenBetween : List (ThreadEvent 1) :=
  [.worker ⟨0, Nat.one_pos⟩, .main, .push ⟨true, true, true⟩ emptyCommand none, .main, .setStop,
    .main, .main, .worker ⟨0, Nat.one_pos⟩]

theorem flush_can_end_iff_takenBetween : ∃ p : Process 1,
    Run Process.step Any (init 1) takenBetween p ∧
      ¬ ∃ es' p', Run Process.step Any p es' p' ∧ p'.main.flushed := by
  have hend : (Run.steps Process.step (fun _ _ => true) (init 1) takenBetween).map
      (fun p => (p.main, isemptyQueue p.heap (some p.pCommandQueue))) =
        some (.popping, some true) := by decide +kernel
  obtain ⟨p, hsteps, hp⟩ := Option.map_eq_some_iff.mp hend
  obtain ⟨hmain, hempty⟩ := Prod.mk.inj hp
  have run : Run Process.step Any (init 1) takenBetween p :=
    (Run.of_steps hsteps).mono fun _ _ _ => trivial
  exact ⟨p, run, fun hreturns =>
    (flush_can_end_iff run).mp hreturns ⟨.inl hmain, hempty⟩⟩

end Process

end Ebotula
