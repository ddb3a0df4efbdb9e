/-
  RocketCo.CoRoutine.Revents — how the events come from epoll into the array of the caller.

      fds[i].events  — EventPoll2Epoll →  ev.events            at EPOLL_CTL_ADD
      ev->events     — EventPoll2Epoll →  Temp[i].revents      in CoPrepare_, for each event
      Temp[i].revents                  →  fds[i].revents       when the coroutine is back

  Nothing initialises `Temp`, nor the variable in which `EventPoll2Epoll` collects its result.  What they
  happen to hold is an input here, and so are the results of `epoll_ctl` and `AddTimeOut`.

  Main result: `revents_exact_iff`.
-/
import RocketCo.CoRoutine.Interest
import RocketCo.Hook.PollMerge

namespace RocketCo.CoRoutine

open RocketCo.CoSwap (ShortItemOptimization)
open RocketCo.Hook (Pollfd POLLIN POLLOUT POLLERR POLLHUP)

/-! ## §1. The functions of the source. -/

def POLLRDNORM : BitVec 16 := 0x040
def POLLWRNORM : BitVec 16 := 0x100
def POLLRDHUP : BitVec 16 := 0x2000

def EPOLLIN : BitVec 32 := 0x001
def EPOLLOUT : BitVec 32 := 0x004
def EPOLLERR : BitVec 32 := 0x008
def EPOLLHUP : BitVec 32 := 0x010
def EPOLLRDNORM : BitVec 32 := 0x040
def EPOLLWRNORM : BitVec 32 := 0x100
def EPOLLRDHUP : BitVec 32 := 0x2000

/-- `if( events & pollBit ) res |= epollBit`. -/
def raise (events pollBit : BitVec 16) (epollBit res : BitVec 32) : BitVec 32 :=
  if events &&& pollBit ≠ 0 then res ||| epollBit else res

/-- `EventPoll2Epoll`; `res` is what its variable holds when it starts. -/
def eventPoll2Epoll (res : BitVec 32) (events : BitVec 16) : BitVec 32 :=
  let res := raise events POLLIN EPOLLIN res
  let res := raise events POLLOUT EPOLLOUT res
  let res := raise events POLLHUP EPOLLHUP res
  let res := raise events POLLRDHUP EPOLLRDHUP res
  let res := raise events POLLERR EPOLLERR res
  let res := raise events POLLRDNORM EPOLLRDNORM res
  raise events POLLWRNORM EPOLLWRNORM res

/-- `Stpoll_t`: the entries of `Temp`, and what `CoPrepare_` changes; `active` are the items it puts on
`ActiveLink`. -/
structure PollCall where
  fds : Nat → Pollfd
  RaisedNumber : Nat
  IsHandle : Bool
  active : List Nat

/-- `CoPrepare_` for item `i`.  Both the argument of `EventPoll2Epoll` and `revents` are `short`s. -/
def PollCall.coPrepare (res : Nat → BitVec 32) (c : PollCall) (event : Nat × BitVec 32) : PollCall :=
  let revents := (eventPoll2Epoll (res event.1) (event.2.setWidth 16)).setWidth 16
  let fds := Function.update c.fds event.1 { c.fds event.1 with revents }
  if c.IsHandle then { c with fds, RaisedNumber := c.RaisedNumber + 1 }
  else ⟨fds, c.RaisedNumber + 1, true, c.active ++ [event.1]⟩

/-- A call of `Co_poll_inner`: its arguments, the uninitialised memory it uses (`Temp`, and the variable
of `EventPoll2Epoll` at each ADD and in each `CoPrepare_`), and what the calls it makes return. -/
structure PollInput where
  fds : List Pollfd
  timeout : Int
  pollfunc : Option (List Pollfd → Int → List Pollfd × Int)
  Temp : Nat → Pollfd
  adding : Nat → BitVec 32
  preparing : Nat → BitVec 32
  ctl : Nat → Option Errno
  addTimeOut : Int

/-- What comes of it: the array, the value, and the events each item was registered with. -/
structure PollOutput where
  fds : List Pollfd
  ret : Int
  registered : List (Nat × BitVec 32)

namespace PollInput

variable (I : PollInput)

/-- The registration loop, from item `i` on; `some` is the answer of `pollfunc` in which it ends. -/
def register : Nat → List Pollfd → Option (List Pollfd × Int) × List (Nat × BitVec 32)
  | _, [] => (none, [])
  | i, p :: fds =>
      -- descriptors below 0 are skipped
      if -1 < p.fd then
        match I.ctl i with
        | some errno =>
            match I.pollfunc with
            | some pollfunc =>
                -- few items, and `epoll_ctl` has failed for good: the system's `poll` answers instead
                if errno ≠ EAGAIN ∧ I.fds.length ≤ ShortItemOptimization then
                  (some (pollfunc I.fds I.timeout), [])
                else register (i + 1) fds
            | none => register (i + 1) fds
        | none =>
            let r := register (i + 1) fds
            -- the variable of `EventPoll2Epoll` starts with whatever it holds
            (r.1, (i, eventPoll2Epoll (I.adding i) p.events) :: r.2)
      else register (i + 1) fds

/-- The clean-up loop: `revents` go back to the caller. -/
def writeBack (fds : Nat → Pollfd) : List Pollfd :=
  I.fds.mapIdx fun i p => { p with revents := (fds i).revents }

/-- `Co_poll_inner`; `events` are those that are delivered before the coroutine is resumed. -/
def coPollInner (events : List (Nat × BitVec 32)) : PollOutput :=
  let r := I.register 0 I.fds
  match r.1 with
  | some answer => ⟨answer.1, answer.2, r.2⟩
  | none =>
      -- refused by the time wheel: `Temp` goes back as it is
      if I.addTimeOut ≠ 0 then ⟨I.writeBack I.Temp, -1, r.2⟩
      else
        let c := events.foldl (PollCall.coPrepare I.preparing) ⟨I.Temp, 0, false, []⟩
        ⟨I.writeBack c.fds, c.RaisedNumber, r.2⟩

/-! ## §2. What is asked. -/

/-- The call ends in `pollfunc` at item `i`, if it gets there. -/
def EndsAt (i : Nat) : Prop :=
  ∃ p, I.fds[i]? = some p ∧ -1 < p.fd ∧ (∃ errno, I.ctl i = some errno ∧ errno ≠ EAGAIN) ∧
    I.fds.length ≤ ShortItemOptimization ∧ I.pollfunc.isSome

/-- Item `i`, with this entry, is added to the epoll instance. -/
def Adds (i : Nat) (p : Pollfd) : Prop :=
  I.fds[i]? = some p ∧ -1 < p.fd ∧ I.ctl i = none ∧ ∀ j < i, ¬ I.EndsAt j

/-- No ADD fails so that the system's `poll` takes over. -/
def Stays : Prop := ∀ i, ¬ I.EndsAt i

end PollInput

/-- The events that `EventPoll2Epoll` knows. -/
def knownEvents : BitVec 16 :=
  POLLIN ||| POLLOUT ||| POLLHUP ||| POLLRDHUP ||| POLLERR ||| POLLRDNORM ||| POLLWRNORM

/-- The events a `short` is translated to.  `POLLPRI`, and every other bit that `EventPoll2Epoll` does not
test, is lost. -/
def translated (events : BitVec 16) : BitVec 16 := events &&& knownEvents

/-- All bits of the one are bits of the other. -/
def Within {w : Nat} (x y : BitVec w) : Prop := x ||| y = y

instance {w : Nat} (x y : BitVec w) : Decidable (Within x y) := inferInstanceAs (Decidable (_ = _))

/-- What epoll has reported for an item, 0 if nothing. -/
def reported (events : List (Nat × BitVec 32)) (i : Nat) : BitVec 32 :=
  ((events.find? fun e => e.1 = i).map Prod.snd).getD 0

/-- **What an `epoll_wait` delivers** to a call that is suspended: for an item at most one event, with
bits that it was added with, or `EPOLLERR` and `EPOLLHUP`. -/
structure Delivered (I : PollInput) (events : List (Nat × BitVec 32)) : Prop where
  distinct : (events.map Prod.fst).Nodup
  nonzero : ∀ e ∈ events, e.2 ≠ 0
  added : ∀ e ∈ events, ∃ p, I.Adds e.1 p ∧
    Within e.2 (eventPoll2Epoll (I.adding e.1) p.events ||| EPOLLERR ||| EPOLLHUP)
  suspended : I.addTimeOut ≠ 0 → events = []

/-- **The events are those of the caller and of epoll.**  Where the system's `poll` has taken over, the
array and the value are what it left. -/
structure Faithful (I : PollInput) (events : List (Nat × BitVec 32)) : Prop where
  registered : ∀ i ev, (i, ev) ∈ (I.coPollInner events).registered ↔
    ∃ p, I.Adds i p ∧ ev = (translated p.events).setWidth 32
  revents : I.Stays → ∀ i p, (I.coPollInner events).fds[i]? = some p →
    p.revents.setWidth 32 = reported events i
  count : I.Stays → 0 ≤ (I.coPollInner events).ret →
    (I.coPollInner events).ret = ((I.coPollInner events).fds.countP fun p => p.revents ≠ 0 : Nat)

/-- **What the uninitialised memory must hold**: nothing that `EventPoll2Epoll` would not put into its
result anyway, and 0 for entries without an event. -/
structure Clean (I : PollInput) (events : List (Nat × BitVec 32)) : Prop where
  adding : ∀ i p, I.Adds i p → Within (I.adding i) ((translated p.events).setWidth 32)
  preparing : I.Stays → ∀ e ∈ events, Within ((I.preparing e.1).setWidth 16) (e.2.setWidth 16)
  fresh : I.Stays → ∀ i < I.fds.length, i ∉ events.map Prod.fst → (I.Temp i).revents = 0

/-! ## §3. The translation. -/

/-- One line of it, for bit `i`. -/
theorem raise_eq (pollBit : BitVec 16) (epollBit : BitVec 32) (i : Nat)
    (hpoll : pollBit = BitVec.twoPow 16 i) (hepoll : pollBit.setWidth 32 = epollBit)
    (events : BitVec 16) (res : BitVec 32) :
    raise events pollBit epollBit res = res ||| (events &&& pollBit).setWidth 32 := by
  unfold raise
  have hand : events &&& pollBit = if events.getLsbD i then pollBit else 0 := by
    rw [hpoll]
    exact BitVec.and_twoPow events i
  -- the test is about one bit, so the masked events are that bit or nothing
  by_cases hbit : events.getLsbD i = true
  · rw [if_pos hbit] at hand
    rw [hand, hepoll]
    by_cases hzero : pollBit = 0
    · rw [if_neg (not_not.mpr hzero), ← hepoll, hzero]
      simp
    · rw [if_pos hzero]
  · rw [if_neg hbit] at hand
    rw [hand, if_neg (by simp)]
    simp

/-- **`EventPoll2Epoll`** adds the translated events to what its variable held. -/
theorem eventPoll2Epoll_eq (res : BitVec 32) (events : BitVec 16) :
    eventPoll2Epoll res events = res ||| (translated events).setWidth 32 := by
  unfold eventPoll2Epoll translated knownEvents
  dsimp only
  rw [raise_eq POLLIN EPOLLIN 0 rfl rfl, raise_eq POLLOUT EPOLLOUT 2 rfl rfl,
    raise_eq POLLHUP EPOLLHUP 4 rfl rfl, raise_eq POLLRDHUP EPOLLRDHUP 13 rfl rfl,
    raise_eq POLLERR EPOLLERR 3 rfl rfl, raise_eq POLLRDNORM EPOLLRDNORM 6 rfl rfl,
    raise_eq POLLWRNORM EPOLLWRNORM 8 rfl rfl]
  simp only [BitVec.and_or_distrib_left, BitVec.setWidth_or, BitVec.or_assoc]

variable {w : Nat}

/-- A mask has no bit besides those of the other. -/
theorem within_iff {x y : BitVec w} :
    Within x y ↔ ∀ i, x.getLsbD i = true → y.getLsbD i = true := by
  constructor
  · intro h i hi
    rw [← h, BitVec.getLsbD_or, hi]
    rfl
  · intro h
    apply BitVec.eq_of_getLsbD_eq
    intro i _
    rw [BitVec.getLsbD_or]
    cases hx : x.getLsbD i with
    | false => simp
    | true => simp [h i hx]

theorem Within.trans {x y z : BitVec w} (hxy : Within x y) (hyz : Within y z) : Within x z :=
  within_iff.mpr fun i hi => within_iff.mp hyz i (within_iff.mp hxy i hi)

theorem within_or {x y z : BitVec w} (hx : Within x z) (hy : Within y z) : Within (x ||| y) z := by
  unfold Within at *
  rw [BitVec.or_assoc, hy, hx]

/-- Translated events are known. -/
theorem translated_within (events : BitVec 16) :
    Within ((translated events).setWidth 32) (knownEvents.setWidth 32) := by
  unfold Within translated
  rw [← BitVec.setWidth_or]
  congr 1
  apply BitVec.eq_of_getLsbD_eq
  intro i _
  rw [BitVec.getLsbD_or, BitVec.getLsbD_and]
  cases events.getLsbD i <;> cases knownEvents.getLsbD i <;> rfl

/-- **What is reported comes through**, for an item that was added with its translated events. -/
theorem translated_reported {bits : BitVec 32} {events : BitVec 16}
    (h : Within bits ((translated events).setWidth 32 ||| EPOLLERR ||| EPOLLHUP)) :
    (translated (bits.setWidth 16)).setWidth 32 = bits := by
  -- what was registered is known, and so are the two that epoll adds
  have hknown : Within bits (knownEvents.setWidth 32) :=
    h.trans (within_or (within_or (translated_within events) (by decide)) (by decide))
  apply BitVec.eq_of_getLsbD_eq
  intro i hi
  have hbit := within_iff.mp hknown i
  unfold translated
  rw [BitVec.getLsbD_setWidth] at hbit ⊢
  rw [BitVec.getLsbD_and, BitVec.getLsbD_setWidth]
  cases hbits : bits.getLsbD i with
  | false => simp
  | true =>
      obtain ⟨hlt, hmask⟩ := Bool.and_eq_true_iff.mp (hbit hbits)
      have hshort : i < 16 := BitVec.lt_of_getLsbD hmask
      simp [hi, hshort, hmask]

/-- A `short` is kept in an `uint32_t`. -/
theorem setWidth_narrow (x : BitVec 16) : (x.setWidth 32).setWidth 16 = x := by
  rw [BitVec.setWidth_setWidth_of_le x (by decide), BitVec.setWidth_eq]

/-- **What `CoPrepare_` stores** are the reported bits exactly if its variable holds none besides. -/
theorem stored_iff {res bits : BitVec 32}
    (h : (translated (bits.setWidth 16)).setWidth 32 = bits) :
    ((eventPoll2Epoll res (bits.setWidth 16)).setWidth 16).setWidth 32 = bits ↔
      Within (res.setWidth 16) (bits.setWidth 16) := by
  have hshort : translated (bits.setWidth 16) = bits.setWidth 16 := by
    rw [← setWidth_narrow (translated (bits.setWidth 16)), h]
  have hwide : (bits.setWidth 16).setWidth 32 = bits := by
    rw [← hshort]
    exact h
  rw [eventPoll2Epoll_eq, BitVec.setWidth_or, hshort, setWidth_narrow]
  unfold Within
  constructor
  · intro heq
    have hnarrow := congrArg (BitVec.setWidth 16) heq
    rw [setWidth_narrow] at hnarrow
    exact hnarrow
  · intro heq
    rw [heq]
    exact hwide

/-! ## §4. The registration loop. -/

namespace PollInput

variable {I : PollInput} {i : Nat} {p : Pollfd} {ps : List Pollfd}

/-- A turn of the loop that ends it ... -/
theorem register_ends (ps : List Pollfd) (hp : I.fds[i]? = some p) (h : I.EndsAt i) :
    ∃ answer, I.register i (p :: ps) = (some answer, []) := by
  obtain ⟨q, hq, hfd, ⟨errno, hctl, hne⟩, hlen, hfun⟩ := h
  obtain ⟨pollfunc, hpollfunc⟩ := Option.isSome_iff_exists.mp hfun
  rw [hp] at hq
  rw [← Option.some.inj hq] at hfd
  unfold register
  rw [if_pos hfd, hctl, hpollfunc]
  dsimp only
  rw [if_pos ⟨hne, hlen⟩]
  exact ⟨_, rfl⟩

/-- ... and one with others behind it. -/
theorem register_goes (hp : I.fds[i]? = some p) (h : ¬ I.EndsAt i) :
    I.register i (p :: ps) = ((I.register (i + 1) ps).1,
      if -1 < p.fd ∧ I.ctl i = none then
        (i, eventPoll2Epoll (I.adding i) p.events) :: (I.register (i + 1) ps).2
      else (I.register (i + 1) ps).2) := by
  rw [register]
  by_cases hfd : -1 < p.fd
  · rw [if_pos hfd]
    cases hctl : I.ctl i with
    | none => simp [hfd]
    | some errno =>
        rw [if_neg (by simp)]
        cases hpollfunc : I.pollfunc with
        | none => rfl
        | some pollfunc =>
            dsimp only
            rw [if_neg]
            intro hand
            exact h ⟨p, hp, hfd, ⟨errno, hctl, hand.1⟩, hand.2, by rw [hpollfunc]; rfl⟩
  · rw [if_neg hfd, if_neg fun hand => hfd hand.1]

/-- Item `j` is added, if the loop starts at item `i`. -/
def AddsFrom (I : PollInput) (i j : Nat) (p : Pollfd) : Prop :=
  I.fds[j]? = some p ∧ i ≤ j ∧ -1 < p.fd ∧ I.ctl j = none ∧ ∀ k, i ≤ k → k < j → ¬ I.EndsAt k

/-- From the first entry on, these are all entries that are added. -/
theorem adds_iff {j : Nat} {q : Pollfd} : I.AddsFrom 0 j q ↔ I.Adds j q := by
  unfold AddsFrom Adds
  simp

theorem addsFrom_ends {j : Nat} {q : Pollfd} (h : I.EndsAt i) : ¬ I.AddsFrom i j q := by
  rintro ⟨hq, hle, hfd, hctl, hbefore⟩
  by_cases hij : i = j
  · obtain ⟨-, -, -, ⟨errno, hfail, -⟩, -⟩ := h
    rw [hij, hctl] at hfail
    cases hfail
  · exact hbefore i (Nat.le_refl i) (by omega) h

theorem addsFrom_goes {j : Nat} {q : Pollfd} (hp : I.fds[i]? = some p) (h : ¬ I.EndsAt i) :
    I.AddsFrom i j q ↔ (j = i ∧ q = p ∧ -1 < p.fd ∧ I.ctl i = none) ∨ I.AddsFrom (i + 1) j q := by
  constructor
  · rintro ⟨hq, hle, hfd, hctl, hbefore⟩
    by_cases hij : i = j
    · rw [← hij, hp] at hq
      rw [← hij] at hctl
      rw [← Option.some.inj hq] at hfd
      exact Or.inl ⟨hij.symm, (Option.some.inj hq).symm, hfd, hctl⟩
    · exact Or.inr ⟨hq, by omega, hfd, hctl, fun k hk hkj => hbefore k (by omega) hkj⟩
  · rintro (⟨hji, hqp, hfd, hctl⟩ | ⟨hq, hle, hfd, hctl, hbefore⟩)
    · rw [hji, hqp]
      exact ⟨hp, Nat.le_refl i, hfd, hctl, fun k hk hki => by omega⟩
    · refine ⟨hq, by omega, hfd, hctl, fun k hk hkj => ?_⟩
      by_cases hki : k = i
      · rw [hki]
        exact h
      · exact hbefore k (by omega) hkj

/-- **The loop** ends in `pollfunc` where it should, and what it adds gets its translated events. -/
theorem register_spec : ∀ (ps : List Pollfd) (i : Nat), I.fds.drop i = ps →
    ((I.register i ps).1 = none ↔ ∀ j, i ≤ j → ¬ I.EndsAt j) ∧
    ∀ j ev, (j, ev) ∈ (I.register i ps).2 ↔
      ∃ p, I.AddsFrom i j p ∧ ev = eventPoll2Epoll (I.adding j) p.events := by
  intro ps
  induction ps with
  | nil =>
      intro i hdrop
      have hlen : I.fds.length ≤ i := List.drop_eq_nil_iff.mp hdrop
      have hout : ∀ j, i ≤ j → I.fds[j]? = none := fun j hj => List.getElem?_eq_none (by omega)
      refine ⟨iff_of_true rfl ?_, ?_⟩
      · rintro j hj ⟨p, hp, -⟩
        rw [hout j hj] at hp
        cases hp
      · intro j ev
        refine iff_of_false List.not_mem_nil ?_
        rintro ⟨p, ⟨hp, hle, -⟩, -⟩
        rw [hout j hle] at hp
        cases hp
  | cons p ps ih =>
      intro i hdrop
      have hp : I.fds[i]? = some p := by
        rw [← Nat.add_zero i, ← List.getElem?_drop, hdrop]
        rfl
      have hrest : I.fds.drop (i + 1) = ps := by
        rw [← List.drop_drop, hdrop]
        rfl
      obtain ⟨hnone, hadded⟩ := ih (i + 1) hrest
      -- the item at the head ends the loop, or the rest of the loop follows
      by_cases hends : I.EndsAt i
      · obtain ⟨answer, heq⟩ := register_ends ps hp hends
        rw [heq]
        refine ⟨iff_of_false (by simp) fun hall => hall i (Nat.le_refl i) hends, ?_⟩
        intro j ev
        refine iff_of_false List.not_mem_nil ?_
        rintro ⟨q, hq, -⟩
        exact addsFrom_ends hends hq
      · rw [register_goes hp hends]
        refine ⟨hnone.trans ?_, ?_⟩
        · constructor
          · intro hall j hj
            by_cases hji : j = i
            · rw [hji]
              exact hends
            · exact hall j (by omega)
          · exact fun hall j hj => hall j (by omega)
        · intro j ev
          -- an item that is added is the one at the head or a later one
          have hsplit : (∃ q, I.AddsFrom i j q ∧ ev = eventPoll2Epoll (I.adding j) q.events) ↔
              ((j = i ∧ -1 < p.fd ∧ I.ctl i = none) ∧ ev = eventPoll2Epoll (I.adding i) p.events) ∨
                ∃ q, I.AddsFrom (i + 1) j q ∧ ev = eventPoll2Epoll (I.adding j) q.events := by
            constructor
            · rintro ⟨q, hq, hev⟩
              rcases (addsFrom_goes hp hends).mp hq with ⟨hji, hqp, hand⟩ | hlater
              · rw [hji, hqp] at hev
                exact Or.inl ⟨⟨hji, hand⟩, hev⟩
              · exact Or.inr ⟨q, hlater, hev⟩
            · rintro (⟨⟨hji, hand⟩, hev⟩ | ⟨q, hlater, hev⟩)
              · rw [← hji] at hev
                exact ⟨p, (addsFrom_goes hp hends).mpr (Or.inl ⟨hji, rfl, hand⟩), hev⟩
              · exact ⟨q, (addsFrom_goes hp hends).mpr (Or.inr hlater), hev⟩
          rw [hsplit, ← hadded]
          split
          · next hand =>
              rw [List.mem_cons, Prod.mk.injEq]
              simp [hand]
          · next hnot => simp [hnot]

/-- The call ends in `pollfunc`, or gets through. -/
theorem register_none_iff : (I.register 0 I.fds).1 = none ↔ I.Stays :=
  (register_spec I.fds 0 rfl).1.trans ⟨fun h j => h j (Nat.zero_le j), fun h j _ => h j⟩

/-- **The loop of `registerFds`**, which has the interest set in it, ends in `pollfunc` exactly where this one
does, when `ctl` fails where its ADDs do. -/
theorem register_interest (P : Polls) {fault : Nat → Option Errno}
    (h : ∀ i p, I.fds[i]? = some p → -1 < p.fd →
      ((∃ errno, I.ctl i = some errno ∧ errno ≠ EAGAIN) ↔
        P.AddFails (I.fds.map Hook.toPollFd) fault i)) :
    (I.register 0 I.fds).1.isSome =
      (registerFds P.next I.fds.length I.pollfunc.isSome fault 0 (I.fds.map Hook.toPollFd)
        P.interest).1 := by
  have hends : (I.register 0 I.fds).1.isSome = true ↔ ∃ i, I.EndsAt i := by
    rw [Option.isSome_iff_ne_none, Ne, register_none_iff, Stays, not_forall_not]
  have hlen : I.fds.length = (I.fds.map Hook.toPollFd).length := (List.length_map _).symm
  rw [Bool.eq_iff_iff, hends, hlen, fallsBack_iff, exists_fallsBack_iff, ← hlen]
  constructor
  · rintro ⟨i, p, hp, hfd, hctl, hfew, hfun⟩
    exact ⟨⟨hfew, hfun⟩, i, (h i p hp hfd).mp hctl⟩
  · rintro ⟨⟨hfew, hfun⟩, i, hfails⟩
    have hentry := hfails
    obtain ⟨q, hq, hfd, -⟩ := hentry
    rw [List.getElem?_map] at hq
    obtain ⟨p, hp, hpq⟩ := Option.map_eq_some_iff.mp hq
    rw [← hpq] at hfd
    exact ⟨i, p, hp, hfd, (h i p hp hfd).mpr hfails, hfew, hfun⟩

/-- What is registered is the translation of each entry that is added. -/
theorem mem_register_iff {j : Nat} {ev : BitVec 32} : (j, ev) ∈ (I.register 0 I.fds).2 ↔
    ∃ p, I.Adds j p ∧ ev = eventPoll2Epoll (I.adding j) p.events :=
  ((register_spec I.fds 0 rfl).2 j ev).trans (exists_congr fun _ => and_congr_left fun _ => adds_iff)

end PollInput

/-! ## §5. The events of one `epoll_wait`. -/

section Events

variable {events : List (Nat × BitVec 32)} {res : Nat → BitVec 32} {i : Nat}

/-- An event is translated back into the entry of its item. -/
theorem coPrepare_fds (c : PollCall) (e : Nat × BitVec 32) : (c.coPrepare res e).fds =
    Function.update c.fds e.1 { c.fds e.1 with
      revents := (eventPoll2Epoll (res e.1) (e.2.setWidth 16)).setWidth 16 } := by
  unfold PollCall.coPrepare
  cases c.IsHandle <;> rfl

theorem coPrepare_raisedNumber (c : PollCall) (e : Nat × BitVec 32) :
    (c.coPrepare res e).RaisedNumber = c.RaisedNumber + 1 := by
  unfold PollCall.coPrepare
  cases c.IsHandle <;> rfl

/-- Every event is counted. -/
theorem foldl_raisedNumber (events : List (Nat × BitVec 32)) (c : PollCall) :
    (events.foldl (PollCall.coPrepare res) c).RaisedNumber = c.RaisedNumber + events.length := by
  induction events generalizing c with
  | nil => rfl
  | cons e events ih =>
      rw [List.foldl_cons, ih, coPrepare_raisedNumber, List.length_cons]
      omega

/-- An entry without an event stays as it was. -/
theorem foldl_fds_of_not_mem (c : PollCall) (h : i ∉ events.map Prod.fst) :
    (events.foldl (PollCall.coPrepare res) c).fds i = c.fds i := by
  induction events generalizing c with
  | nil => rfl
  | cons e events ih =>
      rw [List.map_cons, List.mem_cons, not_or] at h
      rw [List.foldl_cons, ih _ h.2, coPrepare_fds]
      exact Function.update_of_ne h.1 _ _

/-- An entry with an event has what `CoPrepare_` stores for it. -/
theorem foldl_revents (c : PollCall) (hnd : (events.map Prod.fst).Nodup) {e : Nat × BitVec 32}
    (he : e ∈ events) : ((events.foldl (PollCall.coPrepare res) c).fds e.1).revents =
      (eventPoll2Epoll (res e.1) (e.2.setWidth 16)).setWidth 16 := by
  induction events generalizing c with
  | nil => cases he
  | cons d events ih =>
      obtain ⟨hfirst, hrest⟩ := List.nodup_cons.mp hnd
      rw [List.foldl_cons]
      rcases List.mem_cons.mp he with heq | hin
      · -- no later event is for the same entry
        rw [← heq] at hfirst ⊢
        rw [foldl_fds_of_not_mem _ hfirst, coPrepare_fds, Function.update_self]
      · exact ih _ hrest hin

/-- The one event of an item is what was reported for it. -/
theorem reported_of_mem (hnd : (events.map Prod.fst).Nodup) {e : Nat × BitVec 32} (he : e ∈ events) :
    reported events e.1 = e.2 := by
  unfold reported
  induction events with
  | nil => cases he
  | cons d events ih =>
      obtain ⟨hfirst, hrest⟩ := List.nodup_cons.mp hnd
      by_cases hd : d.1 = e.1
      · rw [List.find?_cons_of_pos (by simpa using hd)]
        rcases List.mem_cons.mp he with heq | hin
        · rw [heq]
          rfl
        · rw [hd] at hfirst
          exact absurd (List.mem_map_of_mem hin) hfirst
      · rw [List.find?_cons_of_neg (by simpa using hd)]
        rcases List.mem_cons.mp he with heq | hin
        · exact absurd (by rw [heq]) hd
        · exact ih hrest hin

theorem reported_of_not_mem (h : i ∉ events.map Prod.fst) : reported events i = 0 := by
  have hnone : events.find? (fun e => e.1 = i) = none := by
    rw [List.find?_eq_none]
    intro e he heq
    exact h (of_decide_eq_true heq ▸ List.mem_map_of_mem he)
  unfold reported
  rw [hnone]
  rfl

end Events

/-! ## §6. The call. -/

variable {I : PollInput} {events : List (Nat × BitVec 32)}

theorem writeBack_getElem? (fds : Nat → Pollfd) (i : Nat) : (I.writeBack fds)[i]? =
    I.fds[i]?.map fun p => { p with revents := (fds i).revents } := List.getElem?_mapIdx

/-- **What a call that gets through leaves.** -/
theorem coPollInner_stays (h : I.Stays) (hd : Delivered I events) {c : PollCall}
    (hc : c = events.foldl (PollCall.coPrepare I.preparing) ⟨I.Temp, 0, false, []⟩) :
    I.coPollInner events =
      ⟨I.writeBack c.fds, if I.addTimeOut ≠ 0 then -1 else events.length, (I.register 0 I.fds).2⟩ := by
  have hnone := PollInput.register_none_iff.mpr h
  have hcount : c.RaisedNumber = events.length := by
    rw [hc, foldl_raisedNumber, Nat.zero_add]
  unfold PollInput.coPollInner
  dsimp only
  rw [hnone]
  dsimp only
  by_cases hret : I.addTimeOut ≠ 0
  -- the call has not been suspended, so no event came in between
  · rw [if_pos hret, if_pos hret, hc, hd.suspended hret]
    rfl
  · rw [if_neg hret, if_neg hret, ← hc, hcount]

theorem coPollInner_registered : (I.coPollInner events).registered = (I.register 0 I.fds).2 := by
  unfold PollInput.coPollInner
  dsimp only
  split
  · rfl
  · split <;> rfl

/-- The entries with `revents` are those with an event. -/
theorem countP_writeBack {fds : Nat → Pollfd} (hnd : (events.map Prod.fst).Nodup)
    (hlt : ∀ i ∈ events.map Prod.fst, i < I.fds.length)
    (h : ∀ i < I.fds.length, (fds i).revents ≠ 0 ↔ i ∈ events.map Prod.fst) :
    ((I.writeBack fds).countP fun p => p.revents ≠ 0) = events.length := by
  -- the counter runs over the entries, the events over the items
  have hmap : (I.writeBack fds).map Pollfd.revents =
      (List.range I.fds.length).map fun i => (fds i).revents := by
    apply List.ext_getElem?
    intro i
    rw [List.getElem?_map, List.getElem?_map, writeBack_getElem?]
    by_cases hi : i < I.fds.length
    · rw [List.getElem?_range hi, List.getElem?_eq_getElem hi]
      rfl
    · rw [List.getElem?_eq_none (by omega), List.getElem?_eq_none (by simpa using hi)]
      rfl
  have hcount : ((I.writeBack fds).countP fun p => p.revents ≠ 0) =
      ((List.range I.fds.length).filter fun i => (fds i).revents ≠ 0).length := by
    have hmaps := congrArg (List.countP fun r : BitVec 16 => r ≠ 0) hmap
    rw [List.countP_map, List.countP_map] at hmaps
    rw [← List.countP_eq_length_filter]
    exact hmaps
  -- the same items, each of them once
  have hperm : ((List.range I.fds.length).filter fun i => (fds i).revents ≠ 0).Perm
      (events.map Prod.fst) := by
    rw [List.perm_ext_iff_of_nodup (List.nodup_range.filter _) hnd]
    intro i
    rw [List.mem_filter, List.mem_range, decide_eq_true_eq]
    constructor
    · exact fun hand => (h i hand.1).mp hand.2
    · exact fun hin => ⟨hlt i hin, (h i (hlt i hin)).mpr hin⟩
  rw [hcount, hperm.length_eq, List.length_map]

/-- An event is that of an item with an entry. -/
theorem Delivered.lt (hd : Delivered I events) {i : Nat} (hi : i ∈ events.map Prod.fst) :
    i < I.fds.length := by
  obtain ⟨e, he, heq⟩ := List.mem_map.mp hi
  obtain ⟨p, hadds, -⟩ := hd.added e he
  rw [← heq]
  exact (List.getElem?_eq_some_iff.mp hadds.1).1

/-- With clean registrations, an entry with an event is right if nothing is mixed into it. -/
theorem revents_event_iff (hd : Delivered I events)
    (hadding : ∀ i p, I.Adds i p → Within (I.adding i) ((translated p.events).setWidth 32))
    {c : PollCall} (hc : c = events.foldl (PollCall.coPrepare I.preparing) ⟨I.Temp, 0, false, []⟩)
    {e : Nat × BitVec 32} (he : e ∈ events) :
    (c.fds e.1).revents.setWidth 32 = reported events e.1 ↔
      Within ((I.preparing e.1).setWidth 16) (e.2.setWidth 16) := by
  obtain ⟨p, hadds, hbits⟩ := hd.added e he
  rw [eventPoll2Epoll_eq, hadding e.1 p hadds] at hbits
  rw [hc, foldl_revents _ hd.distinct he, reported_of_mem hd.distinct he]
  exact stored_iff (translated_reported hbits)

/-- An entry without one is right if `Temp` held 0 there. -/
theorem revents_fresh_iff {c : PollCall}
    (hc : c = events.foldl (PollCall.coPrepare I.preparing) ⟨I.Temp, 0, false, []⟩) {i : Nat}
    (hi : i ∉ events.map Prod.fst) :
    (c.fds i).revents.setWidth 32 = reported events i ↔ (I.Temp i).revents = 0 := by
  rw [hc, foldl_fds_of_not_mem _ hi, reported_of_not_mem hi]
  constructor
  · intro heq
    rw [← setWidth_narrow (I.Temp i).revents, heq]
    rfl
  · intro heq
    rw [heq]
    rfl

/-- A right entry is 0 exactly if nothing was reported. -/
theorem revents_ne_zero_iff (hd : Delivered I events) {revents : BitVec 16} {i : Nat}
    (h : revents.setWidth 32 = reported events i) : revents ≠ 0 ↔ i ∈ events.map Prod.fst := by
  constructor
  · intro hne
    by_contra hnone
    rw [reported_of_not_mem hnone] at h
    apply hne
    rw [← setWidth_narrow revents, h]
    rfl
  · intro hevent hzero
    obtain ⟨e, he, heq⟩ := List.mem_map.mp hevent
    rw [← heq, reported_of_mem hd.distinct he, hzero] at h
    exact hd.nonzero e he h.symm

/-- The registrations are right exactly if nothing is mixed into them. -/
theorem registered_iff :
    (∀ i ev, (i, ev) ∈ (I.coPollInner events).registered ↔
      ∃ p, I.Adds i p ∧ ev = (translated p.events).setWidth 32) ↔
    ∀ i p, I.Adds i p → Within (I.adding i) ((translated p.events).setWidth 32) := by
  rw [coPollInner_registered]
  constructor
  · intro h i p hadds
    have hin := PollInput.mem_register_iff.mpr ⟨p, hadds, rfl⟩
    obtain ⟨q, hq, heq⟩ := (h i _).mp hin
    have hsame : p = q := Option.some.inj (hadds.1.symm.trans hq.1)
    rw [← hsame, eventPoll2Epoll_eq] at heq
    exact heq
  · intro h i ev
    rw [PollInput.mem_register_iff]
    refine exists_congr fun p => and_congr_right fun hadds => ?_
    rw [eventPoll2Epoll_eq, h i p hadds]

/-- **When the events are right.**  Whatever epoll has delivered to the call: every item was added with its
translated events, every `revents` is what was reported for it, and a value that is not negative counts
the entries with `revents`, if and only if the uninitialised memory holds nothing that gets into them. -/
theorem revents_exact_iff (hd : Delivered I events) : Faithful I events ↔ Clean I events := by
  generalize hc : events.foldl (PollCall.coPrepare I.preparing) ⟨I.Temp, 0, false, []⟩ = c
  have hout : I.Stays → ∀ i p, (I.coPollInner events).fds[i]? = some p →
      i < I.fds.length ∧ p.revents = (c.fds i).revents := by
    intro hstays i p hp
    rw [coPollInner_stays hstays hd hc.symm, writeBack_getElem?] at hp
    obtain ⟨q, hq, heq⟩ := Option.map_eq_some_iff.mp hp
    rw [← heq]
    exact ⟨(List.getElem?_eq_some_iff.mp hq).1, rfl⟩
  have hin : I.Stays → ∀ i < I.fds.length, ∃ p, (I.coPollInner events).fds[i]? = some p := by
    intro hstays i hi
    rw [coPollInner_stays hstays hd hc.symm, writeBack_getElem?, List.getElem?_eq_getElem hi]
    exact ⟨_, rfl⟩
  constructor
  · intro h
    have hadding := registered_iff.mp h.registered
    refine ⟨hadding, ?_, ?_⟩
    · intro hstays e he
      obtain ⟨p, hp⟩ := hin hstays e.1 (hd.lt (List.mem_map_of_mem he))
      have hright := h.revents hstays e.1 p hp
      rw [(hout hstays e.1 p hp).2] at hright
      exact (revents_event_iff hd hadding hc.symm he).mp hright
    · intro hstays i hi hnone
      obtain ⟨p, hp⟩ := hin hstays i hi
      have hright := h.revents hstays i p hp
      rw [(hout hstays i p hp).2] at hright
      exact (revents_fresh_iff hc.symm hnone).mp hright
  · intro h
    have hright : I.Stays → ∀ i < I.fds.length,
        (c.fds i).revents.setWidth 32 = reported events i := by
      intro hstays i hi
      -- an entry with an event, or one that still is as it was allocated
      by_cases hevent : i ∈ events.map Prod.fst
      · obtain ⟨e, he, heq⟩ := List.mem_map.mp hevent
        rw [← heq]
        exact (revents_event_iff hd h.adding hc.symm he).mpr (h.preparing hstays e he)
      · exact (revents_fresh_iff hc.symm hevent).mpr (h.fresh hstays i hi hevent)
    refine ⟨registered_iff.mpr h.adding, ?_, ?_⟩
    · intro hstays i p hp
      obtain ⟨hi, heq⟩ := hout hstays i p hp
      rw [heq]
      exact hright hstays i hi
    -- the value counts the events, one for an item
    · intro hstays hret
      rw [coPollInner_stays hstays hd hc.symm] at hret ⊢
      dsimp only at hret ⊢
      by_cases hrefused : I.addTimeOut ≠ 0
      · rw [if_pos hrefused] at hret
        cases hret
      · rw [if_neg hrefused]
        have hcount := countP_writeBack hd.distinct (fun i hi => hd.lt hi)
          fun i hi => revents_ne_zero_iff hd (hright hstays i hi)
        rw [hcount]

/-- A call for input on the descriptors, all of which can be added; the memory holds 0, but for the
`revents` in `Temp`. -/
def PollInput.plain (fds : List Int) (stale : BitVec 16) : PollInput where
  fds := fds.map fun fd => ⟨fd, POLLIN, 0⟩
  timeout := 1000
  pollfunc := none
  Temp := fun _ => ⟨0, 0, stale⟩
  adding := fun _ => 0
  preparing := fun _ => 0
  ctl := fun _ => none
  addTimeOut := 0

theorem PollInput.plain_stays (fds : List Int) (stale : BitVec 16) : (plain fds stale).Stays := by
  rintro i ⟨p, -, -, ⟨errno, hctl, -⟩, -⟩
  cases hctl

/-- Input on the second of two descriptors, and nothing on the first. -/
theorem revents_exact_two : Faithful (.plain [3, 4] 0) [(1, EPOLLIN)] := by
  have hd : Delivered (.plain [3, 4] 0) [(1, EPOLLIN)] := by
    refine ⟨by decide, by decide, ?_, fun hne => absurd rfl hne⟩
    intro e he
    rw [List.mem_singleton.mp he]
    exact ⟨⟨4, POLLIN, 0⟩, ⟨rfl, by decide, rfl, fun j _ => PollInput.plain_stays _ _ j⟩, by decide⟩
  refine (revents_exact_iff hd).mpr ⟨?_, ?_, fun _ _ _ _ => rfl⟩
  · intro i p _
    exact BitVec.zero_or
  · intro _ e _
    exact BitVec.zero_or

/-- Input on the first of two descriptors.  In the entry of the second one is what `Temp` held there, and
the value is 1 although both entries have `revents`. -/
theorem not_revents_exact : Delivered (.plain [3, 4] POLLHUP) [(0, EPOLLIN)] ∧
    ((PollInput.plain [3, 4] POLLHUP).coPollInner [(0, EPOLLIN)]).fds =
      [⟨3, POLLIN, POLLIN⟩, ⟨4, POLLIN, POLLHUP⟩] ∧
    ((PollInput.plain [3, 4] POLLHUP).coPollInner [(0, EPOLLIN)]).ret = 1 ∧
    ¬ Faithful (.plain [3, 4] POLLHUP) [(0, EPOLLIN)] := by
  have hfds : ((PollInput.plain [3, 4] POLLHUP).coPollInner [(0, EPOLLIN)]).fds =
      [⟨3, POLLIN, POLLIN⟩, ⟨4, POLLIN, POLLHUP⟩] := by decide +kernel
  refine ⟨⟨by decide, by decide, ?_, fun hne => absurd rfl hne⟩, hfds, by decide +kernel, ?_⟩
  · intro e he
    rw [List.mem_singleton.mp he]
    exact ⟨⟨3, POLLIN, 0⟩, ⟨rfl, by decide, rfl, fun j hj => absurd hj (Nat.not_lt_zero j)⟩, by decide⟩
  · intro h
    have hsecond := h.revents (PollInput.plain_stays _ _) 1 ⟨4, POLLIN, POLLHUP⟩ (by rw [hfds]; rfl)
    exact absurd hsecond (by decide)

end RocketCo.CoRoutine
