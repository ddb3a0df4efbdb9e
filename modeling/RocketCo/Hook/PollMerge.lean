/-
  RocketCo.Hook.PollMerge — the hooked `poll` on an array that names a descriptor twice.

  `epoll_ctl` takes a descriptor once, so the hooked `poll` merges the entries of one descriptor,

      merge[Fd_ToEvent[fds[i].fd]].events |= fds[i].events

  passes `merge` to `Co_poll_inner`, and afterwards gives every entry of the caller its part,

      fds[i].revents = merge[item->second].revents & fds[i].events

  but only if `Co_poll_inner` returned something positive, and it returns that number itself.  So what
  `poll` always reports, `POLLERR` and `POLLHUP`, is cut off where it was not asked for; `revents`
  stay what they were when nothing is ready; and a descriptor counts once, however many entries it has.

  Main result: `poll_plain_iff`, the inputs on which none of this shows.
-/
import RocketCo.CoRoutine.HookPoll
import RocketCo.Lib.Keyed

namespace RocketCo.Hook

open RocketCo.Lib
open RocketCo.CoRoutine (PollFd mergeFd mergeFds pollTimeout)

def POLLIN : BitVec 16 := 0x001
def POLLOUT : BitVec 16 := 0x004
def POLLERR : BitVec 16 := 0x008
def POLLHUP : BitVec 16 := 0x010

/-! ## §1. The functions of the source. -/

/-- `struct pollfd`. -/
structure Pollfd where
  fd : Int
  events : BitVec 16
  revents : BitVec 16
  deriving DecidableEq

/-- `merge[k].events |= fds[i].events`. -/
def orEvents (q p : Pollfd) : Pollfd := { q with events := q.events ||| p.events }

theorem fd_orEvents (q p : Pollfd) : (orEvents q p).fd = q.fd := rfl

/-- The merging loop: `items` is `merge[0], …, merge[index - 1]` and `index` is `Fd_ToEvent`. -/
def mergeEvents (fds : List Pollfd) : Keyed Pollfd.fd :=
  if 1 < fds.length then Keyed.collect orEvents fd_orEvents fds else Keyed.empty

/-- A turn of the loop behind `Co_poll_inner`; `merge` is what it left in the array. -/
def restoreEvent (m : Keyed Pollfd.fd) (merge : List Pollfd) (p : Pollfd) : Option Pollfd :=
  (m.index p.fd).bind fun k =>
    merge[k]?.map fun q => { p with revents := q.revents &&& p.events }

/-- The hooked `poll`.  The two functions it may call get the array and the timeout, and give the array
as they leave it and their result; there is no result where the restoring loop finds no entry. -/
def poll (Hook_poll_t Co_poll_inner : List Pollfd → Int → List Pollfd × Int) (isHook : Bool)
    (fds : List Pollfd) (timeout : Int) : Option (List Pollfd × Int) :=
  if isHook = false ∨ timeout = 0 then some (Hook_poll_t fds timeout)
  else
    let m := mergeEvents fds
    if fds.length = m.items.length ∨ fds.length < 2 then
      some (Co_poll_inner fds (pollTimeout timeout))
    else
      let r := Co_poll_inner m.items (pollTimeout timeout)
      if 0 < r.2 then
        (fds.mapM (restoreEvent m r.1)).map fun fds => (fds, r.2)
      -- nothing is written back: `revents` keeps what the caller had there
      else some (fds, r.2)

/-! ## §2. What `poll` is to do. -/

/-- The `revents` of an entry, when `ready` tells what is ready on each descriptor. -/
def answer (ready : Int → BitVec 16) (p : Pollfd) : BitVec 16 :=
  ready p.fd &&& (p.events ||| POLLERR ||| POLLHUP)

/-- The plain `poll`: every entry has its `revents`, `fd` and `events` as they were, and the result is
the number of entries with `revents` other than 0. -/
def plainPoll (ready : Int → BitVec 16) (fds : List Pollfd) : List Pollfd × Int :=
  let fds := fds.map fun p => { p with revents := answer ready p }
  (fds, (fds.countP fun p => p.revents ≠ 0 : Nat))

/-- The entries with something ready. -/
def heard (ready : Int → BitVec 16) (fds : List Pollfd) : List Pollfd :=
  fds.filter fun p => answer ready p ≠ 0

/-- What the way over the merged array needs: a caller that clears `revents` when nothing is ready,
asks for the error bits that come, and names no ready descriptor twice. -/
structure Mergeable (ready : Int → BitVec 16) (fds : List Pollfd) : Prop where
  cleared : (∀ p ∈ fds, answer ready p = 0) → ∀ p ∈ fds, p.revents = 0
  asked : ∀ p ∈ fds, ready p.fd &&& (POLLERR ||| POLLHUP) &&& ~~~p.events = 0
  once : ((heard ready fds).map Pollfd.fd).Nodup

/-! ## §3. The merged array. -/

variable {ready : Int → BitVec 16} {fds : List Pollfd} {p q : Pollfd}

/-- The merged array is passed on exactly when a descriptor occurs twice. -/
theorem merges_iff :
    (fds.length = (mergeEvents fds).items.length ∨ fds.length < 2) ↔ (fds.map Pollfd.fd).Nodup := by
  by_cases hlen : 1 < fds.length
  · have hkeys : ∀ k, k ∈ (mergeEvents fds).items.map Pollfd.fd ↔ k ∈ fds.map Pollfd.fd := by
      intro k
      unfold mergeEvents
      rw [if_pos hlen]
      exact Keyed.mem_keys_collect
    -- the merged array has each descriptor once
    have hiff := length_eq_iff_nodup (mergeEvents fds).nodup_keys hkeys
    rw [List.length_map, List.length_map] at hiff
    rw [← hiff]
    omega
  · have hshort : fds.length < 2 := by omega
    refine iff_of_true (Or.inr hshort) ?_
    match fds, hshort with
    | [], _ => exact List.nodup_nil
    | [p], _ => exact List.nodup_singleton _

theorem mergeEvents_of_dup (h : ¬ (fds.map Pollfd.fd).Nodup) :
    mergeEvents fds = Keyed.collect orEvents fd_orEvents fds := by
  have hno := mt merges_iff.mp h
  unfold mergeEvents
  rw [if_pos (by omega)]

/-- An entry of the merged array asks for all that those of its descriptor ask for. -/
theorem getLsbD_events (hq : q ∈ (Keyed.collect orEvents fd_orEvents fds).items) (hp : p ∈ fds)
    (hfd : p.fd = q.fd) {i : Nat} (hi : p.events.getLsbD i = true) :
    q.events.getLsbD i = true := by
  have hjoin : ∀ q p : Pollfd, q.fd = p.fd →
      ((orEvents q p).events.getLsbD i = true ↔
        q.events.getLsbD i = true ∨ p.events.getLsbD i = true) := by
    intro q p _
    show (q.events ||| p.events).getLsbD i = true ↔ _
    rw [BitVec.getLsbD_or, Bool.or_eq_true]
  exact (Keyed.collect_iff (P := fun q => q.events.getLsbD i = true) hjoin hq).mpr ⟨p, hp, hfd, hi⟩

/-- Something is ready for it exactly if something is for one of those. -/
theorem answer_collect (hq : q ∈ (Keyed.collect orEvents fd_orEvents fds).items) :
    answer ready q ≠ 0 ↔ ∃ p ∈ fds, p.fd = q.fd ∧ answer ready p ≠ 0 := by
  refine Keyed.collect_iff (P := fun q => answer ready q ≠ 0) ?_ hq
  intro q p hfd
  have hor : answer ready (orEvents q p) = answer ready q ||| answer ready p := by
    show ready q.fd &&& (q.events ||| p.events ||| POLLERR ||| POLLHUP) = _
    unfold answer
    rw [hfd]
    ext i
    -- bit by bit
    simp only [BitVec.getElem_and, BitVec.getElem_or]
    cases (ready p.fd)[i] <;> cases q.events[i] <;> cases p.events[i] <;> simp
  rw [hor]
  exact BitVec.or_eq_zero_iff.not.trans not_and_or

theorem mem_heard : p ∈ heard ready fds ↔ p ∈ fds ∧ answer ready p ≠ 0 := by
  unfold heard
  rw [List.mem_filter, decide_eq_true_iff]

/-- **The count of the merged array** is that of the caller's exactly if no ready descriptor occurs
twice. -/
theorem length_heard_iff :
    (heard ready (Keyed.collect orEvents fd_orEvents fds).items).length = (heard ready fds).length ↔
      ((heard ready fds).map Pollfd.fd).Nodup := by
  have hnodup : ((heard ready (Keyed.collect orEvents fd_orEvents fds).items).map
      Pollfd.fd).Nodup := by
    have hsub := (List.filter_sublist
      (p := fun p => decide (answer ready p ≠ 0))
      (l := (Keyed.collect orEvents fd_orEvents fds).items)).map Pollfd.fd
    exact hsub.nodup (Keyed.nodup_keys _)
  have hmem : ∀ k, k ∈ (heard ready (Keyed.collect orEvents fd_orEvents fds).items).map Pollfd.fd ↔
      k ∈ (heard ready fds).map Pollfd.fd := by
    intro k
    rw [List.mem_map, List.mem_map]
    constructor
    · intro ⟨q, hq, hk⟩
      obtain ⟨hin, hready⟩ := mem_heard.mp hq
      obtain ⟨p, hp, hfd, hp'⟩ := (answer_collect hin).mp hready
      exact ⟨p, mem_heard.mpr ⟨hp, hp'⟩, hfd.trans hk⟩
    · intro ⟨p, hp, hk⟩
      obtain ⟨hin, hready⟩ := mem_heard.mp hp
      have hkey : p.fd ∈ (Keyed.collect orEvents fd_orEvents fds).items.map Pollfd.fd :=
        Keyed.mem_keys_collect.mpr (List.mem_map_of_mem hin)
      obtain ⟨q, hq, hfd⟩ := List.mem_map.mp hkey
      exact ⟨q, mem_heard.mpr ⟨hq, (answer_collect hq).mpr ⟨p, hin, hfd.symm, hready⟩⟩,
        hfd.trans hk⟩
  have hiff := length_eq_iff_nodup hnodup hmem
  rw [List.length_map, List.length_map] at hiff
  exact hiff

theorem heard_eq_nil_iff : heard ready fds = [] ↔ ∀ p ∈ fds, answer ready p = 0 := by
  unfold heard
  rw [List.filter_eq_nil_iff]
  simp

def toPollFd (p : Pollfd) : PollFd := ⟨p.fd, p.events⟩

/-- A turn of the loop on the array alone: the index only says where the entry of a descriptor is. -/
theorem mergeFd_toPollFd (m : Keyed Pollfd.fd) (p : Pollfd) :
    mergeFd (m.items.map toPollFd) (toPollFd p) =
      (m.add orEvents fd_orEvents p).items.map toPollFd := by
  have hany : ((m.items.map toPollFd).any fun q => q.fd = (toPollFd p).fd) = true ↔
      p.fd ∈ m.items.map Pollfd.fd := by
    rw [List.any_map, List.any_eq_true, List.mem_map]
    exact exists_congr fun q => and_congr_right fun _ => decide_eq_true_iff
  unfold mergeFd
  cases h : m.index p.fd with
  | none =>
      rw [if_neg (mt hany.mp (m.index_eq_none_iff.mp h)), Keyed.items_add_of_none h, List.map_append]
      rfl
  | some i =>
      have hin : p.fd ∈ m.items.map Pollfd.fd := by
        by_contra hout
        rw [m.index_eq_none_iff.mpr hout] at h
        cases h
      rw [if_pos (hany.mpr hin), Keyed.items_add_of_some h, List.map_map, List.map_map]
      apply List.map_congr_left
      intro q _
      by_cases hfd : q.fd = p.fd
      · simp [toPollFd, orEvents, hfd]
      · simp [toPollFd, hfd]

/-- **The array that is passed on** is the one `hookPoll` passes. -/
theorem mergeFds_toPollFd : mergeFds (fds.map toPollFd) =
    (if fds.length = (mergeEvents fds).items.length ∨ fds.length < 2 then fds
      else (mergeEvents fds).items).map toPollFd := by
  have hfold : ∀ ps : List Pollfd, (ps.map toPollFd).foldl mergeFd [] =
      (Keyed.collect orEvents fd_orEvents ps).items.map toPollFd := by
    intro ps
    induction ps using List.reverseRecOn with
    | nil => rfl
    | append_singleton ps p ih =>
        rw [List.map_append, List.foldl_append, ih, Keyed.collect_append]
        exact mergeFd_toPollFd _ p
  have hmerge : (if 1 < (fds.map toPollFd).length then (fds.map toPollFd).foldl mergeFd [] else []) =
      (mergeEvents fds).items.map toPollFd := by
    unfold mergeEvents
    rw [List.length_map, hfold]
    by_cases hlen : 1 < fds.length
    · rw [if_pos hlen, if_pos hlen]
    · rw [if_neg hlen, if_neg hlen]
      rfl
  unfold mergeFds
  rw [hmerge]
  dsimp only
  rw [List.length_map, List.length_map]
  by_cases hsame : fds.length = (mergeEvents fds).items.length ∨ fds.length < 2
  · rw [if_pos hsame, if_pos hsame]
  · rw [if_neg hsame, if_neg hsame]

/-! ## §4. The restoring loop. -/

theorem mapM_eq_map {f : Pollfd → Option Pollfd} {g : Pollfd → Pollfd} {ps : List Pollfd}
    (h : ∀ p ∈ ps, f p = some (g p)) : ps.mapM f = some (ps.map g) := by
  induction ps with
  | nil => rfl
  | cons p ps ih =>
      rw [List.mapM_cons, h p List.mem_cons_self, ih fun p hp => h p (List.mem_cons_of_mem _ hp)]
      rfl

/-- **The restoring loop** gives every entry what it asked for, and nothing else. -/
theorem restore_eq :
    fds.mapM (restoreEvent (Keyed.collect orEvents fd_orEvents fds)
        (plainPoll ready (Keyed.collect orEvents fd_orEvents fds).items).1) =
      some (fds.map fun p => { p with revents := ready p.fd &&& p.events }) := by
  apply mapM_eq_map
  intro p hp
  have hkey : p.fd ∈ (Keyed.collect orEvents fd_orEvents fds).items.map Pollfd.fd :=
    Keyed.mem_keys_collect.mpr (List.mem_map_of_mem hp)
  obtain ⟨q, hq, hfd⟩ := List.mem_map.mp hkey
  obtain ⟨k, hk, hat⟩ := Keyed.index_of_mem hq
  have hrevents : answer ready q &&& p.events = ready p.fd &&& p.events := by
    unfold answer
    rw [hfd]
    ext i hi
    have hsub := getLsbD_events hq hp hfd.symm (i := i)
    simp only [BitVec.getLsbD_eq_getElem hi] at hsub
    simp only [BitVec.getElem_and, BitVec.getElem_or]
    cases hp : p.events[i] with
    | false => simp
    | true => simp [hsub hp]
  rw [hfd] at hk
  unfold restoreEvent plainPoll
  rw [hk]
  show ((List.map _ _)[k]?).map _ = _
  rw [List.getElem?_map, hat]
  show some { p with revents := answer ready q &&& p.events } = _
  rw [hrevents]

/-- Nothing is cut off exactly if the error bits that come were asked for. -/
theorem and_events_eq_answer_iff :
    ready p.fd &&& p.events = answer ready p ↔
      ready p.fd &&& (POLLERR ||| POLLHUP) &&& ~~~p.events = 0 := by
  unfold answer
  rw [BitVec.eq_of_getElem_eq_iff, BitVec.eq_of_getElem_eq_iff]
  refine forall₂_congr fun i hi => ?_
  simp only [BitVec.getElem_and, BitVec.getElem_or, BitVec.getElem_not]
  cases (ready p.fd)[i] <;> cases p.events[i] <;> simp

/-! ## §5. The hooked `poll` and the plain one. -/

theorem plainPoll_snd : (plainPoll ready fds).2 = ((heard ready fds).length : Int) := by
  show (((fds.map fun p => { p with revents := answer ready p }).countP
    fun p => p.revents ≠ 0 : Nat) : Int) = _
  rw [List.countP_map, List.countP_eq_length_filter]
  rfl

/-- A merged entry has something ready exactly if one of the caller's has. -/
theorem heard_collect_eq_nil_iff :
    heard ready (Keyed.collect orEvents fd_orEvents fds).items = [] ↔ heard ready fds = [] := by
  rw [heard_eq_nil_iff, heard_eq_nil_iff]
  constructor
  · intro hquiet p hp
    have hkey : p.fd ∈ (Keyed.collect orEvents fd_orEvents fds).items.map Pollfd.fd :=
      Keyed.mem_keys_collect.mpr (List.mem_map_of_mem hp)
    obtain ⟨q, hq, hfd⟩ := List.mem_map.mp hkey
    by_contra hready
    exact (answer_collect hq).mpr ⟨p, hp, hfd.symm, hready⟩ (hquiet q hq)
  · intro hquiet q hq
    by_contra hready
    obtain ⟨p, hp, _, hp'⟩ := (answer_collect hq).mp hready
    exact hp' (hquiet p hp)

/-- `Mergeable` when nothing is ready ... -/
theorem mergeable_of_quiet (hquiet : heard ready fds = []) :
    Mergeable ready fds ↔ ∀ p ∈ fds, p.revents = 0 := by
  have hzero := heard_eq_nil_iff.mp hquiet
  constructor
  · intro hcan
    exact hcan.cleared hzero
  · intro hclear
    refine ⟨fun _ => hclear, ?_, ?_⟩
    · intro p hp
      have hbits : ready p.fd &&& p.events ||| ready p.fd &&& (POLLERR ||| POLLHUP) = 0 := by
        rw [← BitVec.and_or_distrib_left, ← BitVec.or_assoc]
        exact hzero p hp
      have herr : ready p.fd &&& (POLLERR ||| POLLHUP) = 0 := (BitVec.or_eq_zero_iff.mp hbits).2
      rw [herr]
      exact BitVec.zero_and
    · rw [hquiet]
      exact List.nodup_nil

/-- ... and when something is. -/
theorem mergeable_of_heard (hsome : heard ready fds ≠ []) :
    Mergeable ready fds ↔ (∀ p ∈ fds, ready p.fd &&& p.events = answer ready p) ∧
      ((heard ready fds).map Pollfd.fd).Nodup := by
  constructor
  · intro hcan
    exact ⟨fun p hp => and_events_eq_answer_iff.mpr (hcan.asked p hp), hcan.once⟩
  · intro ⟨hall, honce⟩
    refine ⟨?_, ?_, honce⟩
    · intro hzero
      exact absurd (heard_eq_nil_iff.mpr hzero) hsome
    · intro p hp
      exact and_events_eq_answer_iff.mp (hall p hp)

/-- The plain `poll` leaves the array as it is exactly if it holds its own answers. -/
theorem plainPoll_fst_eq_self_iff : fds = (plainPoll ready fds).1 ↔
    ∀ p ∈ fds, p.revents = answer ready p := by
  unfold plainPoll
  constructor
  · intro h p hp
    rw [h] at hp
    obtain ⟨q, hq, heq⟩ := List.mem_map.mp hp
    rw [← heq]
    rfl
  · intro h
    symm
    have hid : ∀ p ∈ fds, { p with revents := answer ready p } = p := by
      intro p hp
      rw [← h p hp]
    exact (List.map_congr_left hid).trans (List.map_id' fds)

section Merged

variable {Hook_poll_t Co_poll_inner : List Pollfd → Int → List Pollfd × Int} {timeout : Int}

/-- The way over the merged array. -/
theorem poll_merged (hdup : ¬ (fds.map Pollfd.fd).Nodup) (htime : timeout ≠ 0)
    (hinner : Co_poll_inner (mergeEvents fds).items (pollTimeout timeout) =
      plainPoll ready (mergeEvents fds).items) :
    poll Hook_poll_t Co_poll_inner true fds timeout =
      if heard ready fds = [] then some (fds, 0)
      else some (fds.map fun p => { p with revents := ready p.fd &&& p.events },
        ((heard ready (Keyed.collect orEvents fd_orEvents fds).items).length : Int)) := by
  have hhook : ¬ (true = false ∨ timeout = 0) := by simp [htime]
  unfold poll
  rw [if_neg hhook]
  dsimp only
  rw [if_neg (mt merges_iff.mp hdup), hinner, mergeEvents_of_dup hdup, restore_eq, plainPoll_snd]
  by_cases hquiet : heard ready fds = []
  · rw [if_pos hquiet, heard_collect_eq_nil_iff.mpr hquiet]
    rfl
  · rw [if_neg hquiet]
    have hpos := List.length_pos_iff.mpr (mt heard_collect_eq_nil_iff.mp hquiet)
    rw [if_pos (by omega)]
    rfl

/-- **The hooked `poll` of a merged array is the plain `poll`** exactly for the callers that `Mergeable`
describes. -/
theorem poll_plain_iff (hdup : ¬ (fds.map Pollfd.fd).Nodup) (htime : timeout ≠ 0)
    (hinner : Co_poll_inner (mergeEvents fds).items (pollTimeout timeout) =
      plainPoll ready (mergeEvents fds).items) :
    poll Hook_poll_t Co_poll_inner true fds timeout = some (plainPoll ready fds) ↔
      Mergeable ready fds := by
  rw [poll_merged hdup htime hinner]
  have hplain : plainPoll ready fds = ((plainPoll ready fds).1, ((heard ready fds).length : Int)) := by
    rw [← plainPoll_snd]
  by_cases hquiet : heard ready fds = []
  · have hzero := heard_eq_nil_iff.mp hquiet
    rw [if_pos hquiet, mergeable_of_quiet hquiet, hplain, hquiet, Option.some_inj, Prod.mk.injEq]
    show (fds = _ ∧ (0 : Int) = 0) ↔ _
    rw [and_iff_left rfl, plainPoll_fst_eq_self_iff]
    exact forall₂_congr fun p hp => by rw [hzero p hp]
  · rw [if_neg hquiet, mergeable_of_heard hquiet, hplain, Option.some_inj, Prod.mk.injEq,
      Int.natCast_inj, length_heard_iff]
    refine and_congr_left fun _ => ?_
    unfold plainPoll
    rw [List.map_inj_left]
    exact forall₂_congr fun p _ => ⟨fun h => congrArg Pollfd.revents h, fun h => by rw [h]⟩

/-- Two entries for descriptor 3, one of them to read and one to write, and only the latter is ready. -/
theorem poll_plain_write :
    poll (fun fds _ => (fds, 0)) (fun fds _ => plainPoll (fun _ => POLLOUT) fds) true
        [⟨3, POLLIN, 0⟩, ⟨3, POLLOUT, 0⟩] 1000 =
      some (plainPoll (fun _ => POLLOUT) [⟨3, POLLIN, 0⟩, ⟨3, POLLOUT, 0⟩]) := by
  refine (poll_plain_iff (by decide) (by decide) rfl).mpr ⟨?_, ?_, ?_⟩
  · decide
  · decide
  · decide

/-- Both entries are ready to read: the plain `poll` counts two, the hooked one. -/
theorem not_poll_plain :
    poll (fun fds _ => (fds, 0)) (fun fds _ => plainPoll (fun _ => POLLIN) fds) true
        [⟨3, POLLIN, 0⟩, ⟨3, POLLIN, 0⟩] 1000 =
      some ([⟨3, POLLIN, POLLIN⟩, ⟨3, POLLIN, POLLIN⟩], 1) ∧
    plainPoll (fun _ => POLLIN) [⟨3, POLLIN, 0⟩, ⟨3, POLLIN, 0⟩] =
      ([⟨3, POLLIN, POLLIN⟩, ⟨3, POLLIN, POLLIN⟩], 2) := by
  decide +kernel

end Merged

end RocketCo.Hook
