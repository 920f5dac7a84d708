import Mathlib

/-!
# The target server

What the deployment engine can see and change on a server: the containers by
name, and the endpoint that the proxy routes the instance to.

`Server` carries the facts about addresses that Docker's network driver gives:
only a running container has one, an address in use was handed out before,
and no two containers have the same one.  Every operation rebuilds them, so
no later proof has to.

The operations are those of the Docker API that the engine calls, with the
answers it distinguishes: a missing container (`notFound`), a name already
taken (`conflict`), any other refusal.  `Serves n` says that the route
designates the running container `n`, and the lemmas named `..._of_ne` and
`serves_...` say what each operation leaves alone.
-/

namespace Akerdock.Docker

open Function (update update_apply)

/-- The `State.Status` values of a container. -/
inductive ContainerStatus where
  | created | running | paused | restarting | removing | exited | dead
  deriving DecidableEq

/-- A container: its address on the destination network, on which it answers
only while it is running, and its status. -/
structure Container where
  ip : Option Nat
  status : ContainerStatus
  deriving DecidableEq

/-- What a routing file points at: a container name, which the proxy resolves
on the destination network, an address, or the waker of scale-to-zero. -/
inductive Target where
  | name (n : String)
  | ip (a : Nat)
  | waker
  deriving DecidableEq

/-- The errors of the Docker API that the engine tells apart. -/
inductive DockerError where
  | notFound | conflict | other

structure Server where
  containers : String → Option Container
  route : Option Target
  nextIp : Nat
  ip_running : ∀ {n c a}, containers n = some c → c.ip = some a →
    c.status = .running
  ip_lt : ∀ {n c a}, containers n = some c → c.ip = some a → a < nextIp
  ip_inj : ∀ {m n c d a}, containers m = some c → containers n = some d →
    c.ip = some a → d.ip = some a → m = n

namespace Server

/-! ## Changing one container -/

/-- Put the container `n` in a status in which it has no address. -/
def down (s : Server) (n : String) (st : ContainerStatus) : Server where
  containers := update s.containers n (some ⟨none, st⟩)
  route := s.route
  nextIp := s.nextIp
  ip_running := by
    intro m c a hm hc
    rw [update_apply] at hm
    split at hm
    · cases hm
      cases hc
    · exact s.ip_running hm hc
  ip_lt := by
    intro m c a hm hc
    rw [update_apply] at hm
    split at hm
    · cases hm
      cases hc
    · exact s.ip_lt hm hc
  ip_inj := by
    intro m m' c d a hm hm' hc hd
    rw [update_apply] at hm hm'
    split at hm
    · cases hm
      cases hc
    · split at hm'
      · cases hm'
        cases hd
      · exact s.ip_inj hm hm' hc hd

/-- Run the container `n`, on an address that was never in use. -/
def up (s : Server) (n : String) : Server where
  containers := update s.containers n (some ⟨some s.nextIp, .running⟩)
  route := s.route
  nextIp := s.nextIp + 1
  ip_running := by
    intro m c a hm hc
    rw [update_apply] at hm
    split at hm
    · cases hm
      rfl
    · exact s.ip_running hm hc
  ip_lt := by
    intro m c a hm hc
    rw [update_apply] at hm
    split at hm
    · cases hm
      cases hc
      exact Nat.lt_succ_self _
    · exact Nat.lt_succ_of_lt (s.ip_lt hm hc)
  ip_inj := by
    intro m m' c d a hm hm' hc hd
    rw [update_apply] at hm hm'
    split at hm <;> split at hm'
    · rename_i h h'
      rw [h, h']
    · cases hm
      cases hc
      exact absurd (s.ip_lt hm' hd) (Nat.lt_irrefl _)
    · cases hm'
      cases hd
      exact absurd (s.ip_lt hm hc) (Nat.lt_irrefl _)
    · exact s.ip_inj hm hm' hc hd

def erase (s : Server) (n : String) : Server where
  containers := update s.containers n none
  route := s.route
  nextIp := s.nextIp
  ip_running := by
    intro m c a hm hc
    rw [update_apply] at hm
    split at hm
    · cases hm
    · exact s.ip_running hm hc
  ip_lt := by
    intro m c a hm hc
    rw [update_apply] at hm
    split at hm
    · cases hm
    · exact s.ip_lt hm hc
  ip_inj := by
    intro m m' c d a hm hm' hc hd
    rw [update_apply] at hm hm'
    split at hm
    · cases hm
    · split at hm'
      · cases hm'
      · exact s.ip_inj hm hm' hc hd

def move (s : Server) (m n : String) : Server where
  containers := update (update s.containers m none) n (s.containers m)
  route := s.route
  nextIp := s.nextIp
  ip_running := by
    intro k c a hk hc
    simp only [update_apply] at hk
    split at hk
    · exact s.ip_running hk hc
    · split at hk
      · cases hk
      · exact s.ip_running hk hc
  ip_lt := by
    intro k c a hk hc
    rw [update_apply] at hk
    split at hk
    · exact s.ip_lt hk hc
    · rw [update_apply] at hk
      split at hk
      · cases hk
      · exact s.ip_lt hk hc
  ip_inj := by
    intro k k' c d a hk hk' hc hd
    simp only [update_apply] at hk hk'
    split at hk <;> split at hk'
    · rename_i h h'
      rw [h, h']
    · split at hk'
      · cases hk'
      · rename_i h
        exact absurd (s.ip_inj hk' hk hd hc) h
    · split at hk
      · cases hk
      · rename_i h
        exact absurd (s.ip_inj hk hk' hc hd) h
    · split at hk
      · cases hk
      · split at hk'
        · cases hk'
        · exact s.ip_inj hk hk' hc hd

def routeTo (s : Server) (t : Option Target) : Server :=
  { s with route := t }

theorem down_containers (s : Server) (n m : String) (st : ContainerStatus) :
    (s.down n st).containers m =
      if m = n then some ⟨none, st⟩ else s.containers m := by
  simp [down, update_apply]

theorem up_containers (s : Server) (n m : String) :
    (s.up n).containers m =
      if m = n then some ⟨some s.nextIp, .running⟩ else s.containers m := by
  simp [up, update_apply]

theorem erase_containers (s : Server) (n m : String) :
    (s.erase n).containers m = if m = n then none else s.containers m := by
  simp [erase, update_apply]

theorem move_containers (s : Server) (m n k : String) :
    (s.move m n).containers k =
      if k = n then s.containers m
      else if k = m then none else s.containers k := by
  simp [move, update_apply]

def empty : Server where
  containers := fun _ => none
  route := none
  nextIp := 0
  ip_running := by
    intro n c a h
    cases h
  ip_lt := by
    intro n c a h
    cases h
  ip_inj := by
    intro m n c d a h
    cases h

/-! ## The Docker API -/

def containerInspect (s : Server) (n : String) : Except DockerError Container :=
  match s.containers n with
  | none => .error .notFound
  | some c => .ok c

/-- `ContainerStop`.  A container that is not up is left as it is. -/
def containerStop (s : Server) (n : String) : Except DockerError Unit × Server :=
  match s.containers n with
  | none => (.error .notFound, s)
  | some c =>
    match c.status with
    | .running | .paused | .restarting => (.ok (), s.down n .exited)
    | .created | .removing | .exited | .dead => (.ok (), s)

def containerRemove (s : Server) (n : String) : Except DockerError Unit × Server :=
  match s.containers n with
  | none => (.error .notFound, s)
  | some _ => (.ok (), s.erase n)

def containerCreate (s : Server) (n : String) : Except DockerError Unit × Server :=
  match s.containers n with
  | none => (.ok (), s.down n .created)
  | some _ => (.error .conflict, s)

def containerStart (s : Server) (n : String) : Except DockerError Unit × Server :=
  match s.containers n with
  | none => (.error .notFound, s)
  | some c =>
    match c.status with
    | .created | .exited => (.ok (), s.up n)
    | .running | .restarting => (.ok (), s)
    | .paused | .removing | .dead => (.error .other, s)

def containerRename (s : Server) (m n : String) : Except DockerError Unit × Server :=
  match s.containers m, s.containers n with
  | none, _ => (.error .notFound, s)
  | some _, some _ => (.error .conflict, s)
  | some _, none => (.ok (), s.move m n)

/-! ## What an operation leaves alone -/

variable {s : Server} {n : String}

theorem containerStop_of_ne (h : m ≠ n) : (s.containerStop n).2.containers m = s.containers m := by
  unfold containerStop
  split
  · rfl
  · split <;> simp [down_containers, h]

theorem containerStop_eq_none :
    (s.containerStop n).2.containers m = none ↔ s.containers m = none := by
  unfold containerStop
  split
  · rfl
  · rename_i c hc
    split
    all_goals
      by_cases h : m = n
      · simp [h, hc, down_containers]
      · simp [h, down_containers]

@[simp] theorem containerStop_route (s : Server) (n : String) :
    (s.containerStop n).2.route = s.route := by
  unfold containerStop
  split
  · rfl
  · split <;> rfl

theorem containerRemove_of_ne (h : m ≠ n) :
    (s.containerRemove n).2.containers m = s.containers m := by
  unfold containerRemove
  split <;> simp [erase_containers, h]

@[simp] theorem containerRemove_self (s : Server) (n : String) :
    (s.containerRemove n).2.containers n = none := by
  unfold containerRemove
  split
  · assumption
  · simp [erase_containers]

@[simp] theorem containerRemove_route (s : Server) (n : String) :
    (s.containerRemove n).2.route = s.route := by
  unfold containerRemove
  split <;> rfl

theorem containerCreate_of_ne (h : m ≠ n) :
    (s.containerCreate n).2.containers m = s.containers m := by
  unfold containerCreate
  split <;> simp [down_containers, h]

@[simp] theorem containerCreate_route (s : Server) (n : String) :
    (s.containerCreate n).2.route = s.route := by
  unfold containerCreate
  split <;> rfl

theorem containerStart_of_ne (h : m ≠ n) :
    (s.containerStart n).2.containers m = s.containers m := by
  unfold containerStart
  split
  · rfl
  · split <;> simp [up_containers, h]

@[simp] theorem containerStart_route (s : Server) (n : String) :
    (s.containerStart n).2.route = s.route := by
  unfold containerStart
  split
  · rfl
  · split <;> rfl

theorem containerRename_of_ne (hm : k ≠ m) (hn : k ≠ n) :
    (s.containerRename m n).2.containers k = s.containers k := by
  unfold containerRename
  split <;> simp [move_containers, hm, hn]

@[simp] theorem containerRename_route (s : Server) (m n : String) :
    (s.containerRename m n).2.route = s.route := by
  unfold containerRename
  split <;> rfl

theorem containerRename_free (hm : s.containers m = some c) (hn : s.containers n = none) :
    s.containerRename m n = (.ok (), s.move m n) := by
  simp [containerRename, hm, hn]

theorem containerRename_taken (hm : s.containers m = some c) (hn : s.containers n = some d) :
    s.containerRename m n = (.error .conflict, s) := by
  simp [containerRename, hm, hn]

/-! ## Serving -/

def Running (s : Server) (n : String) : Prop :=
  ∃ c, s.containers n = some c ∧ c.status = .running

/-- The route designates the container `n`, by its name or by its address,
and that container is running. -/
def Serves (s : Server) (n : String) : Prop :=
  ∃ c, s.containers n = some c ∧ c.status = .running ∧
    (s.route = some (.name n) ∨ ∃ a, c.ip = some a ∧ s.route = some (.ip a))

instance (s : Server) (n : String) : Decidable (s.Serves n) :=
  match h : s.containers n with
  | none => isFalse fun ⟨c, hc, _⟩ => by simp [h] at hc
  | some c =>
    decidable_of_iff
      (c.status = .running ∧ (s.route = some (.name n) ∨ ∃ a ∈ c.ip, s.route = some (.ip a)))
      (by simp [Serves, h])

/-- The route designates the address of the container `n`, which is
running. -/
def ServesByIp (s : Server) (n : String) : Prop :=
  ∃ c a, s.containers n = some c ∧ c.status = .running ∧ c.ip = some a ∧ s.route = some (.ip a)

/-- The endpoint that the proxy routes to is a running container. -/
def Up (s : Server) : Prop :=
  ∃ n, s.Serves n

instance (s : Server) (n : String) : Decidable (s.ServesByIp n) :=
  match h : s.containers n with
  | none => isFalse fun ⟨c, _, hc, _⟩ => by simp [h] at hc
  | some c =>
    decidable_of_iff
      (c.status = .running ∧ ∃ a ∈ c.ip, s.route = some (.ip a))
      (by simp [ServesByIp, h])

/-- A route by name to a container that is not running reaches nothing. -/
theorem not_up_of_name (hroute : s.route = some (.name n)) (hn : ¬ s.Running n) : ¬ s.Up := by
  rintro ⟨m, c, hc, hrun, hname | ⟨a, _, ha⟩⟩
  · rw [hroute] at hname
    injection hname with hname
    injection hname with hname
    exact hn ⟨c, hname ▸ hc, hrun⟩
  · cases hroute.symm.trans ha

theorem ServesByIp.serves (h : s.ServesByIp n) : s.Serves n := by
  obtain ⟨c, a, hc, hrun, hip, hroute⟩ := h
  exact ⟨c, hc, hrun, .inr ⟨a, hip, hroute⟩⟩

theorem Serves.running (h : s.Serves n) : s.Running n := by
  obtain ⟨c, hc, hr, _⟩ := h
  exact ⟨c, hc, hr⟩

/-- Serving depends on the container itself and on the route only. -/
theorem Serves.congr {s' : Server} (h : s.Serves n)
    (hc : s'.containers n = s.containers n) (hr : s'.route = s.route) :
    s'.Serves n := by
  unfold Serves at h ⊢
  rw [hc, hr]
  exact h

/-- A route by name serves as soon as the named container runs. -/
theorem serves_routeTo_name (h : s.Running n) : (s.routeTo (some (.name n))).Serves n := by
  obtain ⟨c, hc, hr⟩ := h
  exact ⟨c, hc, hr, .inl rfl⟩

/-- A container that is designated by its address keeps serving under its new
name. -/
theorem serves_move (hc : s.containers m = some c) (hr : c.status = .running)
    (ha : c.ip = some a) (hroute : s.route = some (.ip a)) :
    (s.move m n).Serves n := by
  refine ⟨c, ?_, hr, .inr ⟨a, ha, hroute⟩⟩
  rw [move_containers, if_pos rfl, hc]

end Server

end Akerdock.Docker
