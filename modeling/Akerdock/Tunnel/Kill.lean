import Akerdock.Tunnel.Bridge

/-!
# Every target connection is closed

When `Bridge` has returned, no connection that it dialed should be open, and it
should never hold more than `MaxStreams`.  Each open connection therefore needs
an owner: the table, a goroutine that is about to close it, `closeAll`, or the
reader that has just dialed it.  A connection loses its owner when another one
with the same id takes its place in the table, and when it comes into the table
after `closeAll`.

* `Orderly` excludes this, and a close that comes late.
* `Owned` is the invariant, and `kill_guaranteed` the result.
-/

namespace Akerdock.Tunnel.Bridge

open Table List Option Machine

/-! ## The condition -/

/-- The connections are dialed and closed in an orderly way.

* A dial that succeeds does so before `closeAll`, and when every connection that
  was taken out of the table is closed.
* The client does not reuse the id of a stream that is in the table.
* `closeAll` does not come between a dial and the table.
* `Bridge` returns when every connection that was taken out of the table is
  closed. -/
def Orderly (a : Action) (s : State) : Prop :=
  match a with
  | .dialed true => s.phase = .running ∧ s.closing = []
  | .insert =>
    match s.reader with
    | .dialed id _ => id ∉ s.streams
    | _ => True
  | .tearDown =>
    match s.reader with
    | .dialed _ _ => False
    | _ => True
  | .returns => s.closing = []
  | _ => True

instance (a : Action) (s : State) : Decidable (Orderly a s) := by
  unfold Orderly
  split <;> (try split) <;> infer_instance

/-! ## The owners -/

def Reader.held : Reader → List Nat
  | .dialed _ k => [k]
  | _ => []

def Phase.rest : Phase → List Nat
  | .sweeping rest => rest
  | _ => []

/-- The connections that have an owner. -/
def State.owned (s : State) : List Nat :=
  s.held ++ s.closing ++ s.phase.rest ++ s.reader.held

/-- How many owners there are. -/
def State.load (s : State) : Nat :=
  s.streams.keys.length + s.closing.length + s.phase.rest.length + s.reader.held.length

theorem mem_held {s : State} : k ∈ s.held ↔ ∃ id, s.streams.lookup id = some k := by
  rw [State.held, mem_filterMap]
  constructor
  · intro ⟨id, _, h⟩
    exact ⟨id, h⟩
  · intro ⟨id, h⟩
    refine ⟨id, ?_, h⟩
    exact AList.mem_keys.1 (AList.lookup_isSome.1 (isSome_of_eq_some h))

theorem mem_owned {s : State} :
    k ∈ s.owned ↔ (∃ id, s.streams.lookup id = some k) ∨ k ∈ s.closing ∨
      k ∈ s.phase.rest ∨ k ∈ s.reader.held := by
  simp [State.owned, mem_held]

theorem length_owned_le (s : State) : s.owned.length ≤ s.load := by
  have hheld : s.held.length ≤ s.streams.keys.length :=
    length_filterMap_le ..
  simp only [State.owned, State.load, length_append]
  omega

/-- What holds in every orderly run of a bridge with `MaxStreams = max`. -/
structure Owned (max : Nat) (s : State) : Prop where
  keys : ∀ t ∈ s.targets, t.key < s.targets.length
  distinct : (s.targets.map Target.key).Nodup
  own : ∀ t ∈ s.targets, t.isOpen = true → t.key ∈ s.owned
  bound : s.load ≤ max
  dialing : ∀ id, s.reader = .dialing id → s.streams.keys.length < max
  swept : s.phase ≠ .running → s.streams = ∅ ∧ s.reader.held = []
  returned : s.phase = .returned → s.closing = []

section Steps

variable {max : Nat} {s s' : State}

theorem owned_empty : Owned max .empty where
  keys := nofun
  distinct := nodup_nil
  own := nofun
  bound := Nat.zero_le _
  dialing := nofun
  swept := fun h => absurd rfl h
  returned := nofun

section

variable (hs : Owned max s)

include hs

theorem Owned.update (k : Nat)
    (hkey : ∀ t, (f t).key = t.key) (hopen : ∀ t, (f t).isOpen = t.isOpen) :
    Owned max (s.update k f) := by
  have hlength : (s.update k f).targets.length = s.targets.length :=
    length_map _
  refine { hs with keys := ?_, distinct := ?_, own := ?_ }
  · intro t ht
    rw [hlength]
    rcases of_mem_updateWhere ht with ⟨t, ht₀, -, rfl⟩ | ⟨ht, -⟩
    · rw [hkey]
      exact hs.keys t ht₀
    · exact hs.keys t ht
  · show ((updateWhere _ f s.targets).map Target.key).Nodup
    rw [map_updateWhere hkey]
    exact hs.distinct
  · intro t ht hisOpen
    rcases of_mem_updateWhere ht with ⟨t, ht₀, -, rfl⟩ | ⟨ht, -⟩
    · rw [hopen] at hisOpen
      rw [hkey]
      exact hs.own t ht₀ hisOpen
    · exact hs.own t ht hisOpen

theorem Owned.shut (k : Nat) (hown : ∀ k' ∈ s.owned, k' ≠ k →
      k' ∈ { s with closing := closing, phase := phase }.owned)
    (hload : { s with closing := closing, phase := phase }.load ≤ s.load)
    (hswept : phase ≠ .running → s.phase ≠ .running)
    (hreturned : phase = .returned → closing = []) :
    Owned max ({ s with closing := closing, phase := phase }.update k Target.shut) := by
  refine ⟨?_, ?_, ?_, Nat.le_trans hload hs.bound, hs.dialing,
    fun h => hs.swept (hswept h), hreturned⟩
  · intro t ht
    obtain ⟨t, ht₀, rfl⟩ := mem_updateWhere.1 ht
    show _ < (s.targets.map _).length
    rw [length_map]
    split <;> exact hs.keys t ht₀
  · show ((updateWhere _ Target.shut s.targets).map Target.key).Nodup
    rw [map_updateWhere (g := Target.key) (f := Target.shut) fun _ => rfl]
    exact hs.distinct
  · intro t ht hisOpen
    rcases of_mem_updateKey ht with ⟨t, -, -, rfl⟩ | ⟨ht, hk⟩
    · cases hisOpen
    · exact hown t.key (hs.own t ht hisOpen) hk

theorem Owned.closeStream (id : UInt32) : Owned max (s.closeStream id) := by
  unfold State.closeStream
  split
  · rename_i k hk
    have hmem : id ∈ s.streams.keys :=
      AList.mem_keys.1 (AList.lookup_isSome.1 (isSome_of_eq_some hk))
    have hlength : (s.streams.erase id).keys.length + 1 = s.streams.keys.length := by
      rw [AList.keys_erase]
      exact length_erase_add_one hmem
    have hrunning : s.phase = .running := by
      by_contra hnot
      rw [(hs.swept hnot).1] at hmem
      cases hmem
    refine { hs with
      own := ?_, bound := ?_, dialing := ?_, swept := ?_, returned := ?_ }
    · intro t ht hisOpen
      rw [mem_owned]
      rcases mem_owned.1 (hs.own t ht hisOpen) with ⟨id', hid'⟩ | h | h | h
      · by_cases heq : id' = id
        · subst heq
          rw [hk] at hid'
          exact .inr (.inl (by simp [some.inj hid']))
        · exact .inl ⟨id', by rwa [AList.lookup_erase_ne heq]⟩
      · exact .inr (.inl (mem_cons_of_mem k h))
      · exact .inr (.inr (.inl h))
      · exact .inr (.inr (.inr h))
    · have hbound := hs.bound
      simp only [State.load, length_cons] at hbound ⊢
      omega
    · intro id' hreader
      have hless := hs.dialing id' hreader
      show (s.streams.erase id).keys.length < max
      omega
    · intro hnot
      exact absurd hrunning hnot
    · intro hreturned
      cases hrunning.symm.trans hreturned
  · exact hs

theorem Owned.handle (hidle : s.reader = .idle)
    (full : Bool) (m : Message) : Owned max (s.handle max full m) := by
  unfold State.handle
  split
  · split
    · exact { hs with }
    · rename_i id hmax
      refine { hs with own := ?_, bound := ?_, dialing := ?_, swept := ?_ }
      · have hown := hs.own
        simp only [State.owned, hidle] at hown
        exact hown
      · have hbound := hs.bound
        simp only [State.load, hidle] at hbound
        exact hbound
      · intro _ _
        exact Nat.lt_of_not_le hmax
      · intro hnot
        exact ⟨(hs.swept hnot).1, rfl⟩
  · exact hs.closeStream _
  · exact hs.closeStream _
  · exact hs
  · exact hs
  · split
    · exact { hs.closeStream _ with }
    · exact hs

theorem Owned.read (hr : r.held = [])
    (hheld : s.reader.held = []) (hdialing : ∀ id, r ≠ .dialing id) :
    Owned max { s with reader := r } := by
  refine { hs with own := ?_, bound := ?_, dialing := ?_, swept := ?_ }
  · intro t ht hisOpen
    have hown := hs.own t ht hisOpen
    rw [State.owned, hheld] at hown
    show t.key ∈ s.held ++ s.closing ++ s.phase.rest ++ r.held
    rwa [hr]
  · have hbound := hs.bound
    simp only [State.load, hheld] at hbound
    simpa only [State.load, hr] using hbound
  · intro id h
    exact absurd h (hdialing id)
  · intro hnot
    exact ⟨(hs.swept hnot).1, hr⟩

theorem Owned.dialed {id : UInt32}
    (hreader : s.reader = .dialing id) (hrunning : s.phase = .running)
    (hclosing : s.closing = []) :
    Owned max { s with
      reader := .dialed id s.targets.length
      targets := s.targets ++ [⟨s.targets.length, id, true, false, .left⟩] } := by
  have hless := hs.dialing id hreader
  refine { hs with
    keys := ?_, distinct := ?_, own := ?_, bound := ?_, dialing := ?_
    swept := fun h => absurd hrunning h }
  · rw [length_append]
    exact forall_concat (fun t ht => Nat.lt_add_right 1 (hs.keys t ht)) (Nat.lt_succ_self _)
  · exact nodup_concat hs.distinct fun t ht => Nat.ne_of_lt (hs.keys t ht)
  · intro t ht hisOpen
    rw [mem_owned]
    rcases mem_append.1 ht with ht | ht
    · rcases mem_owned.1 (hs.own t ht hisOpen) with h | h | h | h
      · exact .inl h
      · exact .inr (.inl h)
      · exact .inr (.inr (.inl h))
      · rw [hreader] at h
        cases h
    · rw [mem_singleton.1 ht]
      exact .inr (.inr (.inr mem_cons_self))
  · show s.streams.keys.length + s.closing.length + s.phase.rest.length + 1 ≤ max
    rw [hclosing, hrunning]
    exact hless
  · intro _ h
    cases h

theorem Owned.insert {id : UInt32}
    (hreader : s.reader = .dialed id k) (hfresh : id ∉ s.streams) :
    Owned max { s with reader := .idle, streams := s.streams.insert id k } := by
  have hlength : (s.streams.insert id k).keys.length = s.streams.keys.length + 1 := by
    rw [AList.keys_insert, erase_of_not_mem (mt AList.mem_keys.2 hfresh), length_cons]
  refine { hs with own := ?_, bound := ?_, dialing := ?_, swept := ?_ }
  · intro t ht hisOpen
    rw [mem_owned]
    rcases mem_owned.1 (hs.own t ht hisOpen) with ⟨id', h⟩ | h | h | h
    · have hne : id' ≠ id := by
        rintro rfl
        exact hfresh (AList.lookup_isSome.1 (isSome_of_eq_some h))
      exact .inl ⟨id', by rwa [AList.lookup_insert_ne hne]⟩
    · exact .inr (.inl h)
    · exact .inr (.inr (.inl h))
    · rw [hreader] at h
      rw [mem_singleton.1 h]
      exact .inl ⟨id, AList.lookup_insert s.streams⟩
  · have hbound := hs.bound
    simp only [State.load, hreader, Reader.held, length_singleton] at hbound
    simp only [State.load, Reader.held, length_nil, hlength]
    omega
  · intro _ h
    cases h
  · intro h
    have hheld := (hs.swept h).2
    rw [hreader] at hheld
    cases hheld

theorem Owned.tearDown (hrunning : s.phase = .running) (hheld : s.reader.held = []) :
    Owned max { s with phase := .sweeping s.held, streams := ∅ } := by
  refine { hs with
    own := ?_, bound := ?_, dialing := ?_, swept := fun _ => ⟨rfl, hheld⟩
    returned := nofun }
  · intro t ht hisOpen
    rw [mem_owned]
    rcases mem_owned.1 (hs.own t ht hisOpen) with h | h | h | h
    · exact .inr (.inr (.inl (mem_held.2 h)))
    · exact .inr (.inl h)
    · rw [hrunning] at h
      cases h
    · rw [hheld] at h
      cases h
  · have hbound := hs.bound
    have hle : s.held.length ≤ s.streams.keys.length :=
      length_filterMap_le ..
    simp only [State.load, hrunning, Phase.rest, length_nil] at hbound
    simp only [State.load, Phase.rest, AList.keys_empty, length_nil]
    omega
  · intro id h
    have hless := hs.dialing id h
    exact Nat.lt_of_le_of_lt (Nat.zero_le _) hless

theorem Owned.step {a : Action} (hmay : Orderly a s)
    (h : s.apply max a = some s') : Owned max s' := by
  cases a with
  | frame m full =>
    simp only [State.apply] at h
    split at h
    · rename_i hidle
      have hheld : s.reader.held = [] := by rw [hidle]; rfl
      split at h
      · cases h
        exact hs.read rfl hheld (by rintro _ ⟨⟩)
      · cases h
        cases m with
        | none => exact hs
        | some m => exact hs.handle hidle full m
    · cases h
  | lost =>
    obtain ⟨hidle, rfl⟩ := of_guard h
    exact hs.read rfl (by rw [hidle]; rfl) (by rintro _ ⟨⟩)
  | dialed ok =>
    simp only [State.apply] at h
    split at h
    · rename_i id hreader
      split at h
      · rename_i hok
        cases h
        subst hok
        exact hs.dialed hreader hmay.1 hmay.2
      · cases h
        exact { hs.read (r := .idle) rfl (by rw [hreader]; rfl) (by rintro _ ⟨⟩) with }
    · cases h
  | insert =>
    simp only [State.apply] at h
    split at h
    · rename_i id k hreader
      cases h
      simp only [Orderly, hreader] at hmay
      have hinsert := (hs.insert hreader hmay).update k
        (f := fun t => { t with pumping := true, copier := .running })
        (fun _ => rfl) fun _ => rfl
      exact { hinsert with }
    · cases h
  | pumpFails k | copierEnds k =>
    obtain ⟨t, _, -, rfl⟩ := of_bind_guard h
    refine Owned.closeStream (hs.update k ?_ ?_) _
    · exact fun _ => rfl
    · exact fun _ => rfl
  | copierSends k p =>
    obtain ⟨t, _, -, rfl⟩ := of_bind_guard h
    exact { hs with }
  | copierTells k =>
    obtain ⟨t, _, -, rfl⟩ := of_bind_guard h
    have htold := hs.update k (f := fun t => { t with copier := .left })
      (fun _ => rfl) fun _ => rfl
    exact { htold with }
  | close k =>
    obtain ⟨hk, rfl⟩ := of_guard h
    refine hs.shut k ?_ ?_ id fun hreturned => ?_
    · intro k' hk' hne
      rw [mem_owned] at hk' ⊢
      simpa [mem_erase_of_ne hne] using hk'
    · have hle := length_erase_le (a := k) (l := s.closing)
      simp only [State.load]
      omega
    · rw [hs.returned hreturned] at hk
      cases hk
  | tearDown =>
    obtain ⟨hrunning, rfl⟩ := of_guard h
    refine hs.tearDown hrunning ?_
    cases hreader : s.reader with
    | dialed id k => simp [Orderly, hreader] at hmay
    | _ => rfl
  | sweep =>
    simp only [State.apply] at h
    split at h
    · rename_i k rest hphase
      cases h
      refine hs.shut k ?_ ?_ (fun _ => ?_) (by rintro ⟨⟩)
      · intro k' hk' hne
        rw [mem_owned] at hk' ⊢
        simpa [hphase, Phase.rest, hne] using hk'
      · simp only [State.load, hphase, Phase.rest, length_cons]
        omega
      · rw [hphase]
        rintro ⟨⟩
    · cases h
  | returns =>
    obtain ⟨hphase, rfl⟩ := of_guard h
    have hswept := hs.swept (by rw [hphase]; rintro ⟨⟩)
    refine { hs with
      own := ?_, bound := ?_, swept := fun _ => hswept
      returned := fun _ => hmay }
    · have hown := hs.own
      simp only [State.owned, hphase] at hown
      exact hown
    · have hbound := hs.bound
      simp only [State.load, hphase] at hbound
      exact hbound

end

end Steps

/-! ## The result -/

def State.openTargets (s : State) : List Target :=
  s.targets.filter Target.isOpen

theorem Owned.length_openTargets {max : Nat} (hs : Owned max s) : s.openTargets.length ≤ max := by
  have hsub : (s.openTargets.map Target.key) ⊆ s.owned := by
    intro k hk
    obtain ⟨t, ht, rfl⟩ := mem_map.1 hk
    obtain ⟨ht, hisOpen⟩ := mem_filter.1 ht
    exact hs.own t ht hisOpen
  have hnodup : (s.openTargets.map Target.key).Nodup :=
    hs.distinct.sublist (filter_sublist.map Target.key)
  calc s.openTargets.length = (s.openTargets.map Target.key).length := (length_map _).symm
    _ ≤ s.owned.length := (subperm_of_subset hnodup hsub).length_le
    _ ≤ s.load := length_owned_le s
    _ ≤ max := hs.bound

/-- In every orderly run, whatever frames the client sends, at most `max` target
connections are open at any time, and none is once `Bridge` has returned and no
dial is pending. -/
theorem kill_guaranteed {max : Nat} {s : State}
    (h : Machine.Reaches (State.apply max) Orderly .empty s) :
    s.openTargets.length ≤ max ∧
    (s.phase = .returned → (∀ id, s.reader ≠ .dialing id) →
      ∀ t ∈ s.targets, t.isOpen = false) := by
  have hs : Owned max s := h.invariant
    (fun a s s' hmay happly hs => hs.step hmay happly) owned_empty
  refine ⟨hs.length_openTargets, ?_⟩
  intro hreturned _ t ht
  refine Bool.eq_false_iff.2 fun hisOpen => ?_
  have hswept := hs.swept (by rw [hreturned]; nofun)
  have hown := hs.own t ht hisOpen
  rw [mem_owned, hswept.1, hswept.2, hs.returned hreturned, hreturned] at hown
  simp [Phase.rest] at hown

/-- The client opens the stream `id`, and the dial succeeds. -/
def opens (id : UInt32) : List Action :=
  [.frame (some ⟨id, .text .opening⟩) false, .dialed true, .insert]

/-- Two streams with room for two; the second ends, a third takes its place and
`Bridge` returns. -/
def threeStreams : List Action :=
  opens 1 ++ opens 2 ++ [.copierEnds 1, .close 1, .copierTells 1] ++ opens 3 ++
    [.tearDown, .sweep, .sweep, .returns]

theorem kill_guaranteed_threeStreams :
    ∃ s, Machine.run (State.apply 2) threeStreams .empty = some s ∧
      s.targets.length = 3 ∧ s.phase = .returned ∧ s.reader = .idle ∧
      s.openTargets.length ≤ 2 ∧
      (s.phase = .returned → (∀ id, s.reader ≠ .dialing id) →
        ∀ t ∈ s.targets, t.isOpen = false) := by
  have hrun : (run (State.apply 2) threeStreams .empty).any
      (fun s => s.targets.length = 3 ∧ s.phase = .returned ∧ s.reader = .idle) = true := by
    decide +kernel
  obtain ⟨s, hs, hlast⟩ := (any_eq_true _ _).1 hrun
  obtain ⟨htargets, hphase, hreader⟩ := of_decide_eq_true hlast
  have h : Machine.Reaches (State.apply 2) Orderly .empty s :=
    .of_run hs (by decide +kernel)
  exact ⟨s, hs, htargets, hphase, hreader, kill_guaranteed h⟩

/-- The state after a run with `MaxStreams = 2` has `n` open connections. -/
def leaves (l : List Action) (returned : Bool) (n : Nat) : Bool :=
  (Machine.run (State.apply 2) l .empty).any fun s =>
    s.reader = .idle && s.openTargets.length = n && (s.phase = .returned) == returned

/-- Connections that are not closed, and more of them than allowed.

* A dial succeeds after `Bridge` has returned.
* The client uses one id for three streams: all three connections are open, and
  two of them stay open.
* A stream is opened while the connection of one that has ended is not closed
  yet. -/
theorem kill_not_guaranteed :
    leaves ([.frame (some ⟨1, .text .opening⟩) false, .tearDown, .returns,
      .dialed true, .insert]) true 1 = true ∧
    leaves (opens 1 ++ opens 1 ++ opens 1) false 3 = true ∧
    leaves (opens 1 ++ opens 1 ++ opens 1 ++ [.tearDown, .sweep, .returns]) true 2 = true ∧
    leaves (opens 1 ++ opens 2 ++ [.copierEnds 0] ++ opens 3) false 3 = true := by
  decide +kernel

end Akerdock.Tunnel.Bridge
