/-
  RocketCo.CoRoutine.Links — the intrusive lists of the event loop.

  Wheel slots, the timeout and active lists and the lists of condition variables are all doubly
  linked lists whose links live in the nodes; a node also carries a pointer to the list it is on.
  The four templates that edit them (`RemoveFromWheel`, `AddTail`, `Join`, `PopHead`) are written
  here as the source has them, field by field, over maps from nodes and list headers.

  `WellFormed s l` says that the fields of `s` spell out the lists `l`.  Each template has one lemma:
  on such a state it does not fault, and it edits `l` in the obvious way (`templates_refine`).
  `Repr s l` adds that the ghost bounds every list, so that `Join` always has enough fuel.
-/
import Mathlib.Logic.Function.Basic
import RocketCo.Lib.Chain

namespace RocketCo.CoRoutine

open RocketCo.Lib

/-! ## §1. The templates. -/

/-- All link fields: of the nodes (`Prev`, `Next`, `Link`) and of the list headers (`head`,
`tail`).  `inserted` is a ghost: the number of insertions so far, which bounds every list. -/
structure Links (N H : Type*) where
  prev : N → Option N
  next : N → Option N
  link : N → Option H
  head : H → Option N
  tail : H → Option N
  inserted : Nat

variable {N H : Type*}

/-- Zero-initialised nodes and headers. -/
def Links.empty : Links N H := ⟨fun _ => none, fun _ => none, fun _ => none, fun _ => none,
  fun _ => none, 0⟩

variable [DecidableEq N] [DecidableEq H]

namespace Links

def setPrev (s : Links N H) (n : N) (v : Option N) : Links N H :=
  { s with prev := Function.update s.prev n v }

def setNext (s : Links N H) (n : N) (v : Option N) : Links N H :=
  { s with next := Function.update s.next n v }

def setLink (s : Links N H) (n : N) (v : Option H) : Links N H :=
  { s with link := Function.update s.link n v }

def setHead (s : Links N H) (h : H) (v : Option N) : Links N H :=
  { s with head := Function.update s.head h v }

def setTail (s : Links N H) (h : H) (v : Option N) : Links N H :=
  { s with tail := Function.update s.tail h v }

end Links

/-- `RemoveFromWheel`: take a node off whatever list it is on.  `none` is a failed assertion or a
null pointer dereferenced. -/
def removeFromWheel (s : Links N H) (ap : N) : Option (Links N H) :=
  match s.link ap with
  | none => some s
  | some lst =>
      if s.head lst = none ∨ s.tail lst = none then none
      else
        let s :=
          -- the first node: its successor, if any, becomes the head
          if s.head lst = some ap then
            let s := s.setHead lst (s.next ap)
            match s.head lst with
            | some first => s.setPrev first none
            | none => s
          else
            -- the source tests `ap->Prev` here ...
            match s.prev ap with
            | some before => s.setNext before (s.next ap)
            | none => s
        let s :=
          if s.tail lst = some ap then
            let s := s.setTail lst (s.prev ap)
            match s.tail lst with
            | some last => some (s.setNext last none)
            | none => some s
          else
            -- ... and not `ap->Next` here
            match s.next ap with
            | some after => some (s.setPrev after (s.prev ap))
            | none => none
        s.map fun s => ((s.setPrev ap none).setNext ap none).setLink ap none

/-- `AddTail`: append a node that is on no list. -/
def addTail (s : Links N H) (apLink : H) (ap : N) : Links N H :=
  match s.link ap with
  | some _ => s
  | none =>
      let s :=
        match s.tail apLink with
        | some last =>
            (((s.setNext last (some ap)).setNext ap none).setPrev ap (some last)).setTail apLink
              (some ap)
        | none =>
            (((s.setHead apLink (some ap)).setTail apLink (some ap)).setNext ap none).setPrev ap
              none
      { s.setLink ap (some apLink) with inserted := s.inserted + 1 }

/-- The loop of `Join`: every node from `lp` on is now on `apLink`.  The fuel is a bound on the
length of the list; `none` is a longer (or cyclic) one. -/
def relink (apLink : H) : Nat → Links N H → Option N → Option (Links N H)
  | _, s, none => some s
  | 0, _, some _ => none
  | fuel + 1, s, some lp => relink apLink fuel (s.setLink lp (some apLink)) (s.next lp)

/-- What `Join` does after its loop: tie the list of `lp` to the end of `apLink`. -/
def joinEnds (s : Links N H) (apLink apOther : H) (lp : N) : Links N H :=
  let s :=
    match s.tail apLink with
    | some last =>
        ((s.setNext last (some lp)).setPrev lp (some last)).setTail apLink (s.tail apOther)
    | none => (s.setHead apLink (s.head apOther)).setTail apLink (s.tail apOther)
  (s.setHead apOther none).setTail apOther none

/-- `Join`: append the list `apOther` to `apLink` and leave it empty. -/
def join (s : Links N H) (apLink apOther : H) : Option (Links N H) :=
  match s.head apOther with
  | none => some s
  | some lp =>
      match relink apLink s.inserted s (some lp) with
      | none => none
      | some s => some (joinEnds s apLink apOther lp)

/-- `PopHead`: take the first node off a list. -/
def popHead (s : Links N H) (apLink : H) : Links N H :=
  match s.head apLink with
  | none => s
  | some lp =>
      let s :=
        if s.head apLink = s.tail apLink then (s.setHead apLink none).setTail apLink none
        else s.setHead apLink (s.next lp)
      let s := ((s.setPrev lp none).setNext lp none).setLink lp none
      match s.head apLink with
      | some first => s.setPrev first none
      | none => s

/-- The nodes met on the way from `p` along `Next`. -/
def Links.walk (s : Links N H) : Nat → Option N → List N
  | 0, _ => []
  | _, none => []
  | fuel + 1, some n => n :: s.walk fuel (s.next n)

/-- The nodes on a list, first to last. -/
def Links.items (s : Links N H) (h : H) : List N := s.walk s.inserted (s.head h)

/-! ## §2. What the fields say. -/

/-- The fields of `s` spell out the lists `l`. -/
structure Repr (s : Links N H) (l : H → List N) : Prop where
  head : ∀ h, s.head h = (l h).head?
  tail : ∀ h, s.tail h = (l h).getLast?
  seg : ∀ h, Seg some s.prev s.next none (l h) none
  link : ∀ n h, s.link n = some h ↔ n ∈ l h
  nodup : ∀ h, (l h).Nodup
  bound : ∀ ns : List N, ns.Nodup → (∀ n ∈ ns, s.link n ≠ none) → ns.length ≤ s.inserted

/-- The same without the ghost: every chain is well formed, and `Link` names the list a node is on. -/
structure WellFormed (s : Links N H) (l : H → List N) : Prop where
  head : ∀ h, s.head h = (l h).head?
  tail : ∀ h, s.tail h = (l h).getLast?
  seg : ∀ h, Seg some s.prev s.next none (l h) none
  link : ∀ n h, s.link n = some h ↔ n ∈ l h

variable {s s' : Links N H} {l l' : H → List N} {h : H} {ap : N} {l₁ l₂ : List N}

omit [DecidableEq N] [DecidableEq H] in
/-- Lists that are represented are well formed. -/
theorem Repr.wellFormed (hr : Repr s l) : WellFormed s l := ⟨hr.head, hr.tail, hr.seg, hr.link⟩

omit [DecidableEq N] [DecidableEq H] in
/-- No item is twice on a list. -/
theorem WellFormed.nodup (hw : WellFormed s l) (h : H) : (l h).Nodup :=
  (hw.seg h).nodup (fun _ _ heq => Option.some.inj heq) fun a => Option.some_ne_none a

omit [DecidableEq N] [DecidableEq H] in
/-- **The ghost** still bounds every list when the only new node has been counted. -/
theorem Repr.keep (hr : Repr s l) (hw : WellFormed s' l') (hins : s'.inserted = s.inserted)
    (hold : ∀ n h, n ∈ l' h → ∃ g, n ∈ l g) : Repr s' l' := by
  refine ⟨hw.head, hw.tail, hw.seg, hw.link, hw.nodup, ?_⟩
  intro ns hns hlinked
  rw [hins]
  refine hr.bound ns hns fun n hn hnone => ?_
  obtain ⟨h, hlink⟩ := Option.ne_none_iff_exists'.mp (hlinked n hn)
  obtain ⟨g, hg⟩ := hold n h ((hw.link n h).mp hlink)
  rw [(hr.link n g).mpr hg] at hnone
  cases hnone

omit [DecidableEq N] [DecidableEq H] in
/-- Without links all lists are empty. -/
theorem Repr.empty : Repr (Links.empty : Links N H) fun _ => [] := by
  refine ⟨fun _ => rfl, fun _ => rfl, fun _ => trivial, ?_, fun _ => List.nodup_nil, ?_⟩
  · intro n h
    simp [Links.empty]
  · intro ns _ hns
    cases ns with
    | nil => simp
    | cons n ns => exact absurd rfl (hns n List.mem_cons_self)

omit [DecidableEq N] [DecidableEq H] in
/-- A node is on at most one list. -/
theorem WellFormed.unique (hw : WellFormed s l) {h' : H} {n : N} (h₁ : n ∈ l h) (h₂ : n ∈ l h') :
    h = h' := by
  have heq := (hw.link n h).mpr h₁
  rw [(hw.link n h').mpr h₂] at heq
  exact (Option.some.inj heq).symm

omit [DecidableEq N] [DecidableEq H] in
/-- The `Link` of an item is null exactly if it is on no list. -/
theorem WellFormed.link_none (hw : WellFormed s l) {n : N} : s.link n = none ↔ ∀ h, n ∉ l h := by
  constructor
  · intro hn h hmem
    rw [(hw.link n h).mpr hmem] at hn
    simp at hn
  · intro hn
    cases hl : s.link n with
    | none => rfl
    | some h => exact absurd ((hw.link n h).mp hl) (hn h)

omit [DecidableEq N] [DecidableEq H] in
/-- An item is on one list at most. -/
theorem Repr.unique (hr : Repr s l) {h' : H} {n : N} (h₁ : n ∈ l h) (h₂ : n ∈ l h') : h = h' :=
  hr.wellFormed.unique h₁ h₂

omit [DecidableEq N] [DecidableEq H] in
theorem Repr.link_none (hr : Repr s l) {n : N} : s.link n = none ↔ ∀ h, n ∉ l h :=
  hr.wellFormed.link_none

omit [DecidableEq N] [DecidableEq H] in
theorem Repr.length_le (hr : Repr s l) (h : H) : (l h).length ≤ s.inserted := by
  refine hr.bound _ (hr.nodup h) ?_
  intro n hn
  rw [(hr.link n h).mpr hn]
  simp

omit [DecidableEq N] [DecidableEq H] in
/-- `pPrev` is the item before, ... -/
theorem WellFormed.prev_eq (hw : WellFormed s l) (hsplit : l h = l₁ ++ ap :: l₂) :
    s.prev ap = l₁.getLast? := by
  have hseg := hw.seg h
  rw [hsplit] at hseg
  rw [hseg.prev_eq, lastLink_eq]
  cases l₁.getLast? <;> rfl

omit [DecidableEq N] [DecidableEq H] in
/-- ... and `pNext` the one behind. -/
theorem WellFormed.next_eq (hw : WellFormed s l) (hsplit : l h = l₁ ++ ap :: l₂) :
    s.next ap = l₂.head? := by
  have hseg := hw.seg h
  rw [hsplit] at hseg
  rw [hseg.next_eq, headD_map_some]

omit [DecidableEq N] [DecidableEq H] in
/-- Following `Next` reads the list back. -/
theorem Repr.items (hr : Repr s l) (h : H) : s.items h = l h := by
  have hwalk : ∀ (ls : List N) (fuel : Nat) (p : Option N),
      Seg some s.prev s.next p ls none → ls.length ≤ fuel → s.walk fuel ls.head? = ls := by
    intro ls
    induction ls with
    | nil =>
        intro fuel p _ _
        cases fuel <;> rfl
    | cons a ls ih =>
        intro fuel p hseg hlen
        obtain ⟨_, hn, hrest⟩ := hseg
        cases fuel with
        | zero => simp at hlen
        | succ fuel =>
            have hnext : s.next a = ls.head? := hn.trans (headD_map_some ls)
            show a :: s.walk fuel (s.next a) = a :: ls
            rw [hnext, ih fuel (some a) hrest (by simpa using hlen)]
  show s.walk s.inserted (s.head h) = l h
  rw [hr.head h]
  exact hwalk (l h) s.inserted none (hr.seg h) (hr.length_le h)

/-! ## §3. One list changes. -/

omit [DecidableEq N] in
theorem head_update {head : H → Option N} (hhead : ∀ g, head g = (l g).head?) (x : List N) :
    ∀ g, Function.update head h x.head? g = (Function.update l h x g).head? := by
  intro g
  rw [Function.apply_update fun _ => List.head?, funext hhead]

omit [DecidableEq N] in
theorem tail_update {tail : H → Option N} (htail : ∀ g, tail g = (l g).getLast?) (x : List N) :
    ∀ g, Function.update tail h x.getLast? g = (Function.update l h x g).getLast? := by
  intro g
  rw [Function.apply_update fun _ => List.getLast?, funext htail]

omit [DecidableEq N] in
/-- The chains after a surgery on one list: the others must not notice. -/
theorem seg_update {x : List N} (hx : Seg some s'.prev s'.next none x none)
    (hother : ∀ g, g ≠ h → Seg some s'.prev s'.next none (l g) none) :
    ∀ g, Seg some s'.prev s'.next none (Function.update l h x g) none :=
  (Function.forall_update_iff l fun _ ls => Seg some s'.prev s'.next none ls none).mpr ⟨hx, hother⟩

/-! ## §4. Taking a node off its list. -/

/-- The list pointers after an unlink. -/
theorem WellFormed.link_unlink (hw : WellFormed s l) (hsplit : l h = l₁ ++ ap :: l₂) (n : N) (g : H) :
    Function.update s.link ap none n = some g ↔ n ∈ Function.update l h (l₁ ++ l₂) g := by
  have hnd := hw.nodup h
  rw [hsplit] at hnd
  have hap : ap ∉ l₁ ++ l₂ := (List.nodup_cons.mp (List.nodup_middle.mp hnd)).1
  have happ : ap ∈ l h := by
    rw [hsplit]
    simp
  by_cases hn : n = ap
  · -- `ap` is on no list any more
    rw [hn, Function.update_self]
    have hout : ap ∉ Function.update l h (l₁ ++ l₂) g := by
      intro hin
      by_cases hg : g = h
      · rw [hg, Function.update_self] at hin
        exact hap hin
      · rw [Function.update_of_ne hg] at hin
        exact hg (hw.unique hin happ)
    exact iff_of_false (by simp) hout
  · rw [Function.update_of_ne hn, hw.link]
    by_cases hg : g = h
    · rw [hg, Function.update_self, hsplit]
      simp [hn]
    · rw [Function.update_of_ne hg]

/-- **The shape of an unlink**: the neighbours of `ap` are joined, `ap` is on no list. -/
theorem WellFormed.unlink (hw : WellFormed s l) (hsplit : l h = l₁ ++ ap :: l₂)
    (hhead : s'.head = Function.update s.head h (l₁ ++ l₂).head?)
    (htail : s'.tail = Function.update s.tail h (l₁ ++ l₂).getLast?)
    (hlink : s'.link = Function.update s.link ap none)
    (hprev : ∀ n, n ≠ ap → s'.prev n = if l₂.head? = some n then s.prev ap else s.prev n)
    (hnext : ∀ n, n ≠ ap → s'.next n = if l₁.getLast? = some n then s.next ap else s.next n) :
    WellFormed s' (Function.update l h (l₁ ++ l₂)) := by
  have hnd := hw.nodup h
  rw [hsplit] at hnd
  have hap : ap ∉ l₁ ++ l₂ := (List.nodup_cons.mp (List.nodup_middle.mp hnd)).1
  have hne : ∀ n ∈ l₁ ++ l₂, n ≠ ap := by
    intro n hn heq
    exact hap (heq ▸ hn)
  have hmem : ∀ n ∈ l₁ ++ l₂, n ∈ l h := by
    intro n hn
    rw [hsplit]
    rcases List.mem_append.mp hn with hn | hn <;> simp [hn]
  have happ : ap ∈ l h := by
    rw [hsplit]
    simp
  constructor
  case head =>
    rw [hhead]
    exact head_update hw.head _
  case tail =>
    rw [htail]
    exact tail_update hw.tail _
  case seg =>
    apply seg_update
    · have hseg := hw.seg h
      rw [hsplit] at hseg
      -- the neighbours are linked to each other, the rest of the list stays
      refine seg_unlink hseg hnd ?_ ?_ ?_ ?_
      · intro b hb
        rw [hnext b (hne b (List.mem_append_left _ (List.mem_of_mem_getLast? hb))), if_pos hb]
      · intro b hb
        rw [hprev b (hne b (List.mem_append_right _ (List.mem_of_mem_head? hb))), if_pos hb]
      · intro b hb hbh
        rw [hprev b (hne b hb), if_neg hbh]
      · intro b hb hbl
        rw [hnext b (hne b hb), if_neg hbl]
    · -- another list shares no node with this one
      intro g hg
      refine (hw.seg g).congr ?_
      intro b hb
      have hbne : b ≠ ap := by
        intro heq
        rw [heq] at hb
        exact hg (hw.unique hb happ)
      have hout : b ∉ l₁ ++ l₂ := fun hin => hg (hw.unique hb (hmem b hin))
      rw [hprev b hbne, hnext b hbne]
      constructor
      · refine if_neg fun hh => hout ?_
        exact List.mem_append_right _ (List.mem_of_mem_head? hh)
      · refine if_neg fun hl => hout ?_
        exact List.mem_append_left _ (List.mem_of_mem_getLast? hl)
  case link =>
    rw [hlink]
    exact hw.link_unlink hsplit

omit [DecidableEq N] in
theorem head?_append_ne_nil {l₁ l₂ : List N} (h : l₁ ≠ []) : (l₁ ++ l₂).head? = l₁.head? := by
  cases l₁ with
  | nil => exact absurd rfl h
  | cons a l => rfl

omit [DecidableEq N] [DecidableEq H] in
/-- A node is the first of its list exactly when nothing stands before it ... -/
theorem WellFormed.first_iff (hw : WellFormed s l) (hsplit : l h = l₁ ++ ap :: l₂) :
    s.head h = some ap ↔ l₁ = [] := by
  have hnd := hw.nodup h
  rw [hsplit] at hnd
  rw [hw.head, hsplit]
  cases l₁ with
  | nil => simp
  | cons b l =>
      have hb : b ≠ ap := by
        intro heq
        rw [heq] at hnd
        exact (List.nodup_cons.mp hnd).1 (by simp)
      simp [hb]

omit [DecidableEq N] [DecidableEq H] in
/-- ... and the last when nothing stands behind it. -/
theorem WellFormed.last_iff (hw : WellFormed s l) (hsplit : l h = l₁ ++ ap :: l₂) :
    s.tail h = some ap ↔ l₂ = [] := by
  have hnd := hw.nodup h
  rw [hsplit] at hnd
  have hap₂ : ap ∉ l₂ := (List.nodup_cons.mp (List.nodup_append.mp hnd).2.1).1
  rw [hw.tail, hsplit]
  cases List.eq_nil_or_concat l₂ with
  | inl hnil => simp [hnil]
  | inr hsnoc =>
      obtain ⟨l, b, hconcat⟩ := hsnoc
      rw [List.concat_eq_append] at hconcat
      have hb : b ≠ ap := fun heq => hap₂ (by rw [hconcat, heq]; simp)
      have hlst : (l₁ ++ ap :: (l ++ [b])).getLast? = some b := by
        rw [show l₁ ++ ap :: (l ++ [b]) = (l₁ ++ ap :: l) ++ [b] by simp, List.getLast?_concat]
      rw [hconcat, hlst]
      simp [hb]

/-- **`RemoveFromWheel`** takes a linked node off its list. -/
theorem WellFormed.removeFromWheel (hw : WellFormed s l) (hap : s.link ap = some h) :
    ∃ s', CoRoutine.removeFromWheel s ap = some s' ∧ s'.inserted = s.inserted ∧
      WellFormed s' (Function.update l h ((l h).erase ap)) := by
  have hmem : ap ∈ l h := (hw.link ap h).mp hap
  obtain ⟨l₁, l₂, hsplit⟩ := List.append_of_mem hmem
  have hnd := hw.nodup h
  rw [hsplit] at hnd
  have hap₁ : ap ∉ l₁ := fun hin => (List.nodup_append.mp hnd).2.2 ap hin ap (by simp) rfl
  have hap₂ : ap ∉ l₂ := (List.nodup_cons.mp (List.nodup_append.mp hnd).2.1).1
  have herase : (l h).erase ap = l₁ ++ l₂ := by
    rw [hsplit, List.erase_append_right _ hap₁, List.erase_cons_head]
  have hp := hw.prev_eq hsplit
  have hn := hw.next_eq hsplit
  have hhead := hw.head h
  have htail := hw.tail h
  rw [hsplit] at hhead htail
  rw [herase]
  -- the list has `ap`, so neither of its ends is null
  have hset : ¬ (s.head h = none ∨ s.tail h = none) := by
    rw [hhead, htail]
    simp
  have hfirst := hw.first_iff hsplit
  have hlast := hw.last_iff hsplit
  unfold CoRoutine.removeFromWheel
  rw [hap]
  simp only [hset, if_false]
  by_cases h₁ : l₁ = []
  · subst h₁
    have hp0 : s.prev ap = none := hp
    rw [if_pos (hfirst.mpr rfl)]
    by_cases h₂ : l₂ = []
    · -- the only node
      subst h₂
      have hn0 : s.next ap = none := hn
      have htl : s.tail h = some ap := hlast.mpr rfl
      simp only [Links.setHead, hn0, Function.update_self, htl, if_true, Links.setTail, hp0,
        Option.map_some]
      refine ⟨_, rfl, rfl, hw.unlink hsplit rfl rfl rfl ?_ ?_⟩
      · intro n hna
        simp [Links.setPrev, Links.setNext, Links.setLink, hna]
      · intro n hna
        simp [Links.setPrev, Links.setNext, Links.setLink, hna]
    · -- the first of several
      obtain ⟨c, t, hct⟩ := List.exists_cons_of_ne_nil h₂
      have hnc : s.next ap = some c := by rw [hn, hct]; rfl
      have hca : c ≠ ap := fun heq => hap₂ (by rw [hct, heq]; exact List.mem_cons_self)
      have htl : ¬ s.tail h = some ap := fun heq => h₂ (hlast.mp heq)
      simp only [Links.setHead, hnc, Function.update_self, Links.setPrev, htl, if_false,
        Option.map_some]
      refine ⟨_, rfl, rfl, hw.unlink hsplit ?_ ?_ rfl ?_ ?_⟩
      · simp [Links.setNext, Links.setLink, hct]
      · have hlast? : s.tail h = ([] ++ l₂ : List N).getLast? := by
          rw [htail, hct]
          simp
        rw [← hlast?, Function.update_eq_self]
        rfl
      · intro n hna
        by_cases hnc' : n = c
        · simp [Links.setNext, Links.setLink, hnc', hct, hca, hca.symm, hp0]
        · have hcn : c ≠ n := fun heq => hnc' heq.symm
          simp [Links.setNext, Links.setLink, hna, hnc', hct, hcn]
      · intro n hna
        simp [Links.setNext, Links.setLink, hna]
  · -- a node with a predecessor
    obtain ⟨init, b, hb⟩ := (List.eq_nil_or_concat l₁).resolve_left h₁
    rw [List.concat_eq_append] at hb
    have hpb : s.prev ap = some b := by rw [hp, hb]; simp
    have hba : b ≠ ap := fun heq => hap₁ (by rw [hb, heq]; simp)
    have hhd : ¬ s.head h = some ap := fun heq => h₁ (hfirst.mp heq)
    have hhead? : s.head h = (l₁ ++ l₂).head? := by
      rw [hhead, head?_append_ne_nil h₁, head?_append_ne_nil h₁]
    rw [if_neg hhd]
    by_cases h₂ : l₂ = []
    · -- the last of several
      subst h₂
      have hn0 : s.next ap = none := hn
      have htl : s.tail h = some ap := hlast.mpr rfl
      simp only [hpb, hn0, Links.setNext, htl, if_true, Links.setTail, Function.update_self,
        Option.map_some]
      refine ⟨_, rfl, rfl, hw.unlink hsplit ?_ ?_ rfl ?_ ?_⟩
      · rw [← hhead?, Function.update_eq_self]
        rfl
      · simp [Links.setPrev, Links.setLink, hb]
      · intro n hna
        simp [Links.setPrev, Links.setLink, hna]
      · intro n hna
        by_cases hnb : n = b
        · simp [Links.setPrev, Links.setLink, hnb, hb, hba, hn0]
        · have hbn : b ≠ n := fun heq => hnb heq.symm
          simp [Links.setPrev, Links.setLink, hna, hnb, hb, hbn]
    · -- in the middle
      obtain ⟨c, t, hct⟩ := List.exists_cons_of_ne_nil h₂
      have hnc : s.next ap = some c := by rw [hn, hct]; rfl
      have hca : c ≠ ap := fun heq => hap₂ (by rw [hct, heq]; exact List.mem_cons_self)
      have htl : ¬ s.tail h = some ap := fun heq => h₂ (hlast.mp heq)
      have hab : ap ≠ b := fun heq => hba heq.symm
      simp only [hpb, hnc, Links.setNext, htl, if_false, Function.update_of_ne hab,
        Option.map_some]
      refine ⟨_, rfl, rfl, hw.unlink hsplit ?_ ?_ rfl ?_ ?_⟩
      · rw [← hhead?, Function.update_eq_self]
        rfl
      · have hlast? : s.tail h = (l₁ ++ l₂).getLast? := by
          rw [htail, hct]
          simp
        rw [← hlast?, Function.update_eq_self]
        rfl
      · intro n hna
        by_cases hnc' : n = c
        · simp [Links.setPrev, Links.setLink, hnc', hct, hca, hpb]
        · have hcn : c ≠ n := fun heq => hnc' heq.symm
          simp [Links.setPrev, Links.setLink, hna, hnc', hct, hcn]
      · intro n hna
        by_cases hnb : n = b
        · simp [Links.setPrev, Links.setLink, hnb, hb, hba, hnc]
        · have hbn : b ≠ n := fun heq => hnb heq.symm
          simp [Links.setPrev, Links.setLink, hna, hnb, hb, hbn]

/-- An item that is on no list is left alone. -/
theorem removeFromWheel_unlinked (hap : s.link ap = none) :
    CoRoutine.removeFromWheel s ap = some s := by
  unfold CoRoutine.removeFromWheel
  rw [hap]

/-- **`PopHead`** takes the first node off a list. -/
theorem WellFormed.popHead (hw : WellFormed s l) {t : List N} (hl : l h = ap :: t) :
    WellFormed (CoRoutine.popHead s h) (Function.update l h t) := by
  have hsplit : l h = [] ++ ap :: t := hl
  have hhead : s.head h = some ap := by rw [hw.head, hl]; rfl
  have hn := hw.next_eq hsplit
  have hp : s.prev ap = none := hw.prev_eq hsplit
  have hnd := hw.nodup h
  rw [hl] at hnd
  have hapt := (List.nodup_cons.mp hnd).1
  unfold CoRoutine.popHead
  rw [hhead]
  cases t with
  | nil =>
      have htail : s.tail h = some ap := by rw [hw.tail, hl]; rfl
      simp only [htail, if_true, Links.setHead, Links.setTail, Links.setPrev, Links.setNext,
        Links.setLink, Function.update_self]
      refine hw.unlink hsplit rfl rfl rfl ?_ ?_
      · intro n hna
        simp [hna]
      · intro n hna
        simp [hna]
  | cons c t =>
      have htail : s.tail h ≠ some ap := by
        rw [hw.tail, hl]
        intro heq
        have hin : ap ∈ c :: t := List.mem_of_mem_getLast? (by simpa using heq)
        exact hapt hin
      have hne : ¬ some ap = s.tail h := fun heq => htail heq.symm
      have hnc : s.next ap = some c := hn
      have hca : c ≠ ap := fun heq => hapt (by rw [heq]; exact List.mem_cons_self)
      simp only [hne, if_false, Links.setHead, Links.setPrev, Links.setNext,
        Links.setLink, Function.update_self, hnc]
      refine hw.unlink hsplit rfl ?_ rfl ?_ ?_
      · have hlast? : s.tail h = ([] ++ c :: t : List N).getLast? := by
          rw [hw.tail, hl]
          simp
        rw [← hlast?, Function.update_eq_self]
      · intro n hna
        by_cases hnc' : n = c
        · simp [hnc', hp]
        · have hcn : c ≠ n := fun heq => hnc' heq.symm
          simp [hna, hnc', hcn]
      · intro n hna
        simp [hna]

/-- Nothing is popped from an empty list. -/
theorem popHead_empty (hl : s.head h = none) : CoRoutine.popHead s h = s := by
  unfold CoRoutine.popHead
  rw [hl]

theorem popHead_inserted (s : Links N H) (h : H) : (CoRoutine.popHead s h).inserted = s.inserted := by
  unfold CoRoutine.popHead
  split
  · rfl
  · dsimp only
    -- both branches only store links and list pointers
    split <;> split <;> rfl

/-! ## §5. Appending. -/

omit [DecidableEq N] [DecidableEq H] in
/-- The walk over the links ends at the last item. -/
theorem lastLink_some (l : List N) : lastLink some none l = l.getLast? := by
  rw [lastLink_eq]
  cases l.getLast? <;> rfl

/-- The stores of `AddTail`, read as maps, whether the list was empty or not. -/
theorem WellFormed.addTail_shape (hw : WellFormed s l) (h : H) (hap : s.link ap = none) (t : Links N H)
    (ht : t = CoRoutine.addTail s h ap) :
    t.head = Function.update s.head h (l h ++ [ap]).head? ∧
      t.tail = Function.update s.tail h (l h ++ [ap]).getLast? ∧
      t.link = Function.update s.link ap (some h) ∧
      t.prev = Function.update s.prev ap (l h).getLast? ∧
      (∀ n, n ≠ ap → t.next n = if (l h).getLast? = some n then some ap else s.next n) ∧
      t.next ap = none ∧
      t.inserted = s.inserted + 1 := by
  have htail := hw.tail h
  rw [ht, List.getLast?_concat]
  unfold CoRoutine.addTail
  rw [hap]
  cases hlast : s.tail h with
  | none =>
      rw [hlast] at htail
      have hnil : l h = [] := List.getLast?_eq_none_iff.mp htail.symm
      rw [hnil]
      refine ⟨rfl, rfl, rfl, rfl, ?_, ?_, rfl⟩
      · intro n hn
        simp [Links.setHead, Links.setTail, Links.setNext, Links.setPrev, Links.setLink, hn]
      · simp [Links.setHead, Links.setTail, Links.setNext, Links.setPrev, Links.setLink]
  | some b =>
      rw [hlast] at htail
      have hb : b ∈ l h := List.mem_of_mem_getLast? htail.symm
      have hba : b ≠ ap := fun heq => hw.link_none.mp hap h (heq ▸ hb)
      refine ⟨?_, rfl, rfl, ?_, ?_, ?_, rfl⟩
      · have hhead? : s.head h = (l h ++ [ap]).head? := by
          rw [hw.head, head?_append_ne_nil (List.ne_nil_of_mem hb)]
        rw [← hhead?, Function.update_eq_self]
        rfl
      · rw [← htail]
        rfl
      · intro n hn
        rw [← htail]
        by_cases hnb : n = b
        · simp [Links.setTail, Links.setNext, Links.setPrev, Links.setLink, hnb, hba]
        · have hbn : b ≠ n := fun heq => hnb heq.symm
          simp [Links.setTail, Links.setNext, Links.setPrev, Links.setLink, hn, hnb, hbn]
      · simp [Links.setTail, Links.setNext, Links.setPrev, Links.setLink]

/-- The list pointers after an append. -/
theorem WellFormed.link_append (hw : WellFormed s l) (hout : ∀ g, ap ∉ l g) (n : N) (g : H) :
    Function.update s.link ap (some h) n = some g ↔
      n ∈ Function.update l h (l h ++ [ap]) g := by
  by_cases hn : n = ap
  · rw [hn, Function.update_self]
    by_cases hg : g = h
    · rw [hg, Function.update_self]
      simp
    · rw [Function.update_of_ne hg]
      have hgh : ¬ some h = some g := fun heq => hg (Option.some.inj heq).symm
      exact iff_of_false hgh (hout g)
  · rw [Function.update_of_ne hn, hw.link]
    by_cases hg : g = h
    · rw [hg, Function.update_self]
      simp [hn]
    · rw [Function.update_of_ne hg]

/-- **`AddTail`** appends an unlinked node. -/
theorem WellFormed.addTail (hw : WellFormed s l) (h : H) (hap : s.link ap = none) :
    WellFormed (CoRoutine.addTail s h ap) (Function.update l h (l h ++ [ap])) := by
  have hout : ∀ g, ap ∉ l g := hw.link_none.mp hap
  have hne : ∀ g, ∀ n ∈ l g, n ≠ ap := by
    intro g n hn heq
    exact hout g (heq ▸ hn)
  have hnd : (l h ++ [ap]).Nodup := by
    refine List.nodup_append.mpr ⟨hw.nodup h, List.nodup_singleton ap, ?_⟩
    intro a ha b hb
    rw [List.mem_singleton.mp hb]
    exact hne h a ha
  obtain ⟨hhd, htl, hlk, hpv, hnx, hnap, hins⟩ := hw.addTail_shape h hap _ rfl
  constructor
  case head =>
    rw [hhd]
    exact head_update hw.head _
  case tail =>
    rw [htl]
    exact tail_update hw.tail _
  case seg =>
    apply seg_update
    · refine seg_snoc (hw.seg h) hnd ?_ hnap ?_ ?_ ?_
      · rw [hpv, Function.update_self, lastLink_some]
      · intro b hb
        rw [hnx b (hne h b (List.mem_of_mem_getLast? hb)), if_pos hb]
      · intro b hb
        rw [hpv, Function.update_of_ne (hne h b hb)]
      · intro b hb hbl
        rw [hnx b (hne h b hb), if_neg hbl]
    · intro g hg
      refine (hw.seg g).congr ?_
      intro b hb
      rw [hpv, Function.update_of_ne (hne g b hb), hnx b (hne g b hb)]
      refine ⟨rfl, if_neg ?_⟩
      intro hbl
      exact hg (hw.unique hb (List.mem_of_mem_getLast? hbl))
  case link =>
    rw [hlk]
    exact hw.link_append hout

/-- An item that is on a list already is not added. -/
theorem addTail_linked {g : H} (hap : s.link ap = some g) : CoRoutine.addTail s h ap = s := by
  unfold CoRoutine.addTail
  rw [hap]

omit [DecidableEq H] in
/-- The loop of `Join` changes the list pointers of the nodes it walks over. -/
theorem relink_spec (h : H) : ∀ {ls : List N} {fuel : Nat} {s : Links N H} {p : Option N},
    Seg some s.prev s.next p ls none → ls.length ≤ fuel →
    relink h fuel s ls.head? =
      some { s with link := fun n => if n ∈ ls then some h else s.link n } := by
  intro ls
  induction ls with
  | nil =>
      intro fuel s p _ _
      cases fuel <;> simp [relink]
  | cons a ls ih =>
      intro fuel s p hseg hlen
      obtain ⟨_, hn, hrest⟩ := hseg
      cases fuel with
      | zero => simp at hlen
      | succ fuel =>
          have hnext : s.next a = ls.head? := hn.trans (headD_map_some ls)
          show relink h fuel (s.setLink a (some h)) (s.next a) = _
          rw [hnext, ih (s := s.setLink a (some h)) hrest (by simpa using hlen)]
          -- the pointers set earlier stay set
          have hlink : (fun n => if n ∈ ls then some h else (s.setLink a (some h)).link n) =
              fun n => if n ∈ a :: ls then some h else s.link n := by
            funext n
            by_cases hna : n = a
            · simp [Links.setLink, hna]
            · simp [Links.setLink, hna]
          rw [hlink]
          rfl

/-- The stores of `joinEnds`, read as maps, whether the first list was empty or not. -/
theorem WellFormed.joinEnds_shape (hw : WellFormed s l) (h : H) {o : H} {lp : N} {t : List N}
    (ho : l o = lp :: t) (s' : Links N H) (hhead : s'.head = s.head) (htail : s'.tail = s.tail)
    (hprev : s'.prev = s.prev) (hnext : s'.next = s.next) :
    (joinEnds s' h o lp).head =
        Function.update (Function.update s.head h (l h ++ lp :: t).head?) o none ∧
      (joinEnds s' h o lp).tail =
        Function.update (Function.update s.tail h (s.tail o)) o none ∧
      (joinEnds s' h o lp).link = s'.link ∧
      (joinEnds s' h o lp).prev = Function.update s.prev lp (l h).getLast? ∧
      (∀ n, (joinEnds s' h o lp).next n =
        if (l h).getLast? = some n then some lp else s.next n) ∧
      (joinEnds s' h o lp).inserted = s'.inserted := by
  unfold joinEnds
  rw [htail, ← hw.tail h]
  cases hlast : s.tail h with
  | none =>
      have hnil : l h = [] := List.getLast?_eq_none_iff.mp ((hw.tail h).symm.trans hlast)
      have hplp : s.prev lp = none := by
        rw [hw.prev_eq (show l o = [] ++ lp :: t from ho)]
        rfl
      have hho : s.head o = some lp := by rw [hw.head, ho]; rfl
      refine ⟨?_, ?_, rfl, ?_, ?_, rfl⟩
      · simp only [Links.setHead, Links.setTail, hhead, hho, hnil]
        rfl
      · simp only [Links.setHead, Links.setTail, htail]
      · have hsame : Function.update s.prev lp none = s.prev := by
          rw [← hplp, Function.update_eq_self]
        rw [hsame]
        simp only [Links.setHead, Links.setTail, hprev]
      · intro n
        simp only [Links.setHead, Links.setTail, hnext, reduceCtorEq, if_false]
  | some b =>
      have hb : b ∈ l h := List.mem_of_mem_getLast? ((hw.tail h).symm.trans hlast)
      refine ⟨?_, ?_, rfl, ?_, ?_, rfl⟩
      · have hhead? : s.head h = (l h ++ lp :: t).head? := by
          rw [hw.head, head?_append_ne_nil (List.ne_nil_of_mem hb)]
        rw [← hhead?, Function.update_eq_self]
        simp only [Links.setHead, Links.setTail, Links.setNext, Links.setPrev, hhead]
      · simp only [Links.setHead, Links.setTail, Links.setNext, Links.setPrev, htail]
      · simp only [Links.setHead, Links.setTail, Links.setNext, Links.setPrev, hprev]
      · intro n
        simp only [Links.setHead, Links.setTail, Links.setNext, Links.setPrev, hnext]
        by_cases hnb : n = b
        · rw [hnb, Function.update_self, if_pos rfl]
        · have hbn : ¬ some b = some n := fun heq => hnb (Option.some.inj heq).symm
          rw [Function.update_of_ne hnb, if_neg hbn]

/-- The list pointers after a join. -/
theorem WellFormed.link_join (hw : WellFormed s l) {o : H} (hne : h ≠ o) (n : N) (g : H) :
    (if n ∈ l o then some h else s.link n) = some g ↔
      n ∈ Function.update (Function.update l h (l h ++ l o)) o [] g := by
  by_cases hgo : g = o
  · -- the list that was emptied
    rw [hgo, Function.update_self]
    by_cases hn : n ∈ l o
    · simp [hn, hne]
    · simp [hn, hw.link]
  · rw [Function.update_of_ne hgo]
    by_cases hg : g = h
    · rw [hg, Function.update_self, List.mem_append]
      by_cases hn : n ∈ l o
      · simp [hn]
      · simp [hn, hw.link]
    · rw [Function.update_of_ne hg]
      by_cases hn : n ∈ l o
      · have hhg : ¬ some h = some g := fun heq => hg (Option.some.inj heq).symm
        rw [if_pos hn]
        exact iff_of_false hhg fun hin => hgo (hw.unique hin hn)
      · rw [if_neg hn, hw.link]

/-- **`Join`** appends one list to another and empties it. -/
theorem WellFormed.join (hw : WellFormed s l) {o : H} (hne : h ≠ o)
    (hfuel : (l o).length ≤ s.inserted) :
    ∃ s', CoRoutine.join s h o = some s' ∧ s'.inserted = s.inserted ∧
      WellFormed s' (Function.update (Function.update l h (l h ++ l o)) o []) := by
  unfold CoRoutine.join
  cases ho : l o with
  | nil =>
      have hhead : s.head o = none := by rw [hw.head, ho]; rfl
      rw [hhead]
      refine ⟨s, rfl, rfl, ?_⟩
      rw [List.append_nil, Function.update_eq_self, ← ho, Function.update_eq_self]
      exact hw
  | cons lp t =>
      have hhead : s.head o = some lp := by rw [hw.head, ho]; rfl
      have hseg := hw.seg o
      -- the loop gives every node of `o` the new list
      have hrelink := relink_spec h hseg hfuel
      rw [ho] at hrelink
      simp only [List.head?_cons] at hrelink
      rw [hhead]
      simp only [hrelink]
      -- a node is on one list only, so the two share none
      have hdisj : ∀ a ∈ l h, ∀ b ∈ l o, a ≠ b := by
        intro a ha b hb heq
        exact hne (hw.unique ha (heq ▸ hb))
      have hnd : (l h ++ lp :: t).Nodup := by
        rw [← ho]
        exact List.nodup_append.mpr ⟨hw.nodup h, hw.nodup o, hdisj⟩
      have hlo : lp ∈ l o := by
        rw [ho]
        exact List.mem_cons_self
      have hlast : s.tail o = (l h ++ lp :: t).getLast? := by
        rw [hw.tail, ho, List.getLast?_append_cons]
      obtain ⟨hhd, htl, hlk, hpv, hnx, hins⟩ := hw.joinEnds_shape h ho
        { s with link := fun n => if n ∈ lp :: t then some h else s.link n } rfl rfl rfl rfl
      dsimp only at hlk hins
      refine ⟨_, rfl, hins, ?_⟩
      constructor
      case head =>
        rw [hhd]
        exact head_update (head_update hw.head _) []
      case tail =>
        rw [htl, hlast]
        exact tail_update (tail_update hw.tail _) []
      case seg =>
        refine seg_update trivial ?_
        intro g hgo
        by_cases hg : g = h
        -- the seam: last node of `h`, first node of `o`
        · rw [hg, Function.update_self]
          have hsego : Seg some s.prev s.next none (lp :: t) none := ho ▸ hw.seg o
          refine seg_seam (hw.seg h) hsego hnd ?_ ?_ ?_ ?_
          · intro b hb
            rw [hnx b, if_pos hb]
            rfl
          · intro b hb
            have hbl : lp = b := by simpa using hb
            rw [← hbl, hpv, Function.update_self, lastLink_some]
          · intro b _ hbh
            have hbl : b ≠ lp := fun heq => hbh (by rw [heq]; rfl)
            rw [hpv, Function.update_of_ne hbl]
          · intro b _ hbl
            rw [hnx b, if_neg hbl]
        · -- a third list has neither the seam's first node nor its last
          rw [Function.update_of_ne hg]
          refine (hw.seg g).congr ?_
          intro b hb
          have hbl : b ≠ lp := fun heq => hgo (hw.unique hb (heq ▸ hlo))
          rw [hpv, Function.update_of_ne hbl, hnx b]
          refine ⟨rfl, if_neg fun hlst => ?_⟩
          exact hg (hw.unique hb (List.mem_of_mem_getLast? hlst))
      case link =>
        rw [hlk, ← ho]
        exact hw.link_join hne

/-! ## §6. The ghost, and all lists at once. -/

omit [DecidableEq N] in
/-- A list that only gets nodes from other lists brings no new one. -/
theorem mem_of_update {x : List N} (hx : ∀ n ∈ x, ∃ g, n ∈ l g) :
    ∀ n g, n ∈ Function.update l h x g → ∃ g, n ∈ l g := by
  intro n g hn
  by_cases hg : g = h
  · rw [hg, Function.update_self] at hn
    exact hx n hn
  · rw [Function.update_of_ne hg] at hn
    exact ⟨g, hn⟩

/-- **`RemoveFromWheel`** takes an item out of its list, wherever it stands there. -/
theorem Repr.removeFromWheel (hr : Repr s l) (hap : s.link ap = some h) :
    ∃ s', CoRoutine.removeFromWheel s ap = some s' ∧
      Repr s' (Function.update l h ((l h).erase ap)) := by
  obtain ⟨s', hrem, hins, hw⟩ := hr.wellFormed.removeFromWheel hap
  refine ⟨s', hrem, hr.keep hw hins (mem_of_update fun n hn => ?_)⟩
  exact ⟨h, List.mem_of_mem_erase hn⟩

/-- **`PopHead`** takes the first item. -/
theorem Repr.popHead (hr : Repr s l) {t : List N} (hl : l h = ap :: t) :
    Repr (CoRoutine.popHead s h) (Function.update l h t) := by
  refine hr.keep (hr.wellFormed.popHead hl) (popHead_inserted s h) (mem_of_update fun n hn => ?_)
  exact ⟨h, by rw [hl]; exact List.mem_cons_of_mem ap hn⟩

/-- **`Join`** puts one list behind another and leaves it empty. -/
theorem Repr.join (hr : Repr s l) {o : H} (hne : h ≠ o) :
    ∃ s', CoRoutine.join s h o = some s' ∧
      Repr s' (Function.update (Function.update l h (l h ++ l o)) o []) := by
  obtain ⟨s', hjoin, hins, hw⟩ := hr.wellFormed.join hne (hr.length_le o)
  refine ⟨s', hjoin, hr.keep hw hins ?_⟩
  intro n g hn
  have hback : ∃ g, n ∈ Function.update l h (l h ++ l o) g := by
    refine mem_of_update (fun n hn => ?_) n g hn
    cases hn
  obtain ⟨g, hn⟩ := hback
  refine mem_of_update (fun n hn => ?_) n g hn
  cases List.mem_append.mp hn with
  | inl hin => exact ⟨h, hin⟩
  | inr hin => exact ⟨o, hin⟩

/-- **`AddTail`** puts an item at the end. -/
theorem Repr.addTail (hr : Repr s l) (h : H) (hap : s.link ap = none) :
    Repr (CoRoutine.addTail s h ap) (Function.update l h (l h ++ [ap])) := by
  have hw := hr.wellFormed.addTail h hap
  obtain ⟨-, -, hlk, -, -, -, hins⟩ := hr.wellFormed.addTail_shape h hap _ rfl
  refine ⟨hw.head, hw.tail, hw.seg, hw.link, hw.nodup, ?_⟩
  -- one more node is linked, and `inserted` counts it
  intro ns hns hl
  rw [hins]
  have hold : (ns.erase ap).length ≤ s.inserted := by
    refine hr.bound _ (hns.erase ap) ?_
    intro n hn hnone
    have hna : n ≠ ap := (hns.mem_erase_iff.mp hn).1
    refine hl n (List.mem_of_mem_erase hn) ?_
    rw [hlk, Function.update_of_ne hna]
    exact hnone
  have hlen := List.length_erase_add_one (a := ap) (l := ns)
  by_cases hmem : ap ∈ ns
  · have := hlen hmem
    omega
  · rw [List.erase_of_not_mem hmem] at hold
    omega

/-- Every list without `n`. -/
def erased (l : H → List N) (n : N) : H → List N := fun h => (l h).erase n

omit [DecidableEq H] in
theorem erased_nil {l : H → List N} {h : H} (hempty : l h = []) (n : N) : erased l n h = [] := by
  show (l h).erase n = []
  rw [hempty]
  rfl

open Classical in
/-- `n` at the end of `h`, unless it is on a list already. -/
noncomputable def appended (l : H → List N) (h : H) (n : N) : H → List N :=
  if ∃ g, n ∈ l g then l else Function.update l h (l h ++ [n])

/-- `RemoveFromWheel`, whether or not the item is on a list. -/
theorem WellFormed.erased (hw : WellFormed s l) (n : N) :
    ∃ s', CoRoutine.removeFromWheel s n = some s' ∧ s'.inserted = s.inserted ∧
      WellFormed s' (erased l n) := by
  cases hlink : s.link n with
  | none =>
      have hsame : CoRoutine.erased l n = l := by
        funext h
        exact List.erase_of_not_mem (hw.link_none.mp hlink h)
      rw [hsame]
      exact ⟨s, removeFromWheel_unlinked hlink, rfl, hw⟩
  | some h =>
      obtain ⟨s', hrem, hins, hw'⟩ := hw.removeFromWheel hlink
      refine ⟨s', hrem, hins, ?_⟩
      have hsame : Function.update l h ((l h).erase n) = CoRoutine.erased l n := by
        funext g
        by_cases hg : g = h
        · rw [hg, Function.update_self]
          rfl
        · have hout : n ∉ l g := fun hin => hg (hw.unique hin ((hw.link n h).mp hlink))
          rw [Function.update_of_ne hg]
          exact (List.erase_of_not_mem hout).symm
      rw [← hsame]
      exact hw'

theorem Repr.erased (hr : Repr s l) (n : N) :
    ∃ s', CoRoutine.removeFromWheel s n = some s' ∧ Repr s' (erased l n) := by
  obtain ⟨s', hrem, hins, hw⟩ := hr.wellFormed.erased n
  exact ⟨s', hrem, hr.keep hw hins fun a h ha => ⟨h, List.mem_of_mem_erase ha⟩⟩

/-- `AddTail`, whether or not the item is on a list already. -/
theorem Repr.appended (hr : Repr s l) (h : H) (n : N) :
    Repr (CoRoutine.addTail s h n) (appended l h n) := by
  unfold CoRoutine.appended
  by_cases hn : ∃ g, n ∈ l g
  · obtain ⟨g, hg⟩ := hn
    rw [if_pos ⟨g, hg⟩, addTail_linked ((hr.link n g).mpr hg)]
    exact hr
  · rw [if_neg hn]
    exact hr.addTail h (hr.link_none.mpr fun g hg => hn ⟨g, hg⟩)

/-- `PopHead`, whether or not the list is empty. -/
theorem WellFormed.popped (hw : WellFormed s l) (h : H) :
    WellFormed (CoRoutine.popHead s h) (Function.update l h (l h).tail) := by
  cases hl : l h with
  | nil =>
      have hhead : s.head h = none := by rw [hw.head, hl]; rfl
      rw [popHead_empty hhead, List.tail_nil, ← hl, Function.update_eq_self]
      exact hw
  | cons n t => exact hw.popHead hl

theorem Repr.popped (hr : Repr s l) (h : H) :
    Repr (CoRoutine.popHead s h) (Function.update l h (l h).tail) := by
  refine hr.keep (hr.wellFormed.popped h) (popHead_inserted s h) (mem_of_update fun n hn => ?_)
  exact ⟨h, List.mem_of_mem_tail hn⟩

omit [DecidableEq N] in
/-- What is left after a pop was there, and is not the node that was popped. -/
theorem Repr.mem_popped (hr : Repr s l) {n a : N} {ns : List N} (hl : l h = n :: ns) {g : H}
    (ha : a ∈ Function.update l h ns g) : a ∈ l g ∧ a ≠ n := by
  have hn : n ∈ l h := by
    rw [hl]
    exact List.mem_cons_self
  by_cases hg : g = h
  · rw [hg, Function.update_self] at ha
    have hnd := hr.nodup h
    rw [hl] at hnd
    rw [hg, hl]
    exact ⟨List.mem_cons_of_mem _ ha, fun heq => (List.nodup_cons.mp hnd).1 (heq ▸ ha)⟩
  · rw [Function.update_of_ne hg] at ha
    exact ⟨ha, fun heq => hg (hr.unique (heq ▸ ha) hn)⟩

omit [DecidableEq N] in
/-- The same for a list that is emptied. -/
theorem Repr.mem_cleared (hr : Repr s l) {a : N} {g : H} (ha : a ∈ Function.update l h [] g) :
    a ∈ l g ∧ a ∉ l h := by
  by_cases hg : g = h
  · rw [hg, Function.update_self] at ha
    cases ha
  · rw [Function.update_of_ne hg] at ha
    exact ⟨ha, fun hin => hg (hr.unique ha hin)⟩

omit [DecidableEq H] in
theorem Repr.mem_erased (hr : Repr s l) {a n : N} :
    a ∈ CoRoutine.erased l n h ↔ a ≠ n ∧ a ∈ l h := (hr.nodup h).mem_erase_iff

omit [DecidableEq N] in
theorem mem_appended {a n : N} {g : H} :
    a ∈ appended l h n g ↔ a ∈ l g ∨ a = n ∧ g = h ∧ ∀ h', n ∉ l h' := by
  unfold appended
  by_cases hn : ∃ g, n ∈ l g
  · rw [if_pos hn]
    obtain ⟨g', hg'⟩ := hn
    constructor
    · exact Or.inl
    · intro hin
      cases hin with
      | inl hin => exact hin
      | inr hnew => exact absurd hg' (hnew.2.2 g')
  · rw [if_neg hn]
    have hnone : ∀ h', n ∉ l h' := fun h' hin => hn ⟨h', hin⟩
    by_cases hg : g = h
    · rw [hg, Function.update_self]
      simp [hnone]
    · rw [Function.update_of_ne hg]
      simp [hg]

/-! ## §7. Sequences. -/

/-- **The templates are operations on sequences.**  On well-formed lists, however many, `AddTail` appends
an unlinked node and leaves a linked one alone, `PopHead` drops the first node, `RemoveFromWheel` erases
the node, and `Join` appends the second list to the first and empties it; no other list changes.  The
loop of `Join` ends after as many turns as the second list has nodes, which is what its fuel is for. -/
theorem templates_refine (hw : WellFormed s l) :
    (∀ h n, s.link n = none →
      WellFormed (addTail s h n) (Function.update l h (l h ++ [n]))) ∧
    (∀ h n, s.link n ≠ none → addTail s h n = s) ∧
    (∀ h, WellFormed (popHead s h) (Function.update l h (l h).tail)) ∧
    (∀ n, ∃ s', removeFromWheel s n = some s' ∧ WellFormed s' (erased l n)) ∧
    ∀ h o, h ≠ o → ∀ fuel, (l o).length ≤ fuel →
      ∃ s', join { s with inserted := fuel } h o = some s' ∧
        WellFormed s' (Function.update (Function.update l h (l h ++ l o)) o []) := by
  refine ⟨fun h n hn => hw.addTail h hn, ?_, hw.popped, ?_, ?_⟩
  · intro h n hn
    obtain ⟨g, hg⟩ := Option.ne_none_iff_exists'.mp hn
    exact addTail_linked hg
  · intro n
    obtain ⟨s', hrem, -, hw'⟩ := hw.erased n
    exact ⟨s', hrem, hw'⟩
  · intro h o hne fuel hfuel
    -- no chain reads the ghost
    have hghost : WellFormed { s with inserted := fuel } l := ⟨hw.head, hw.tail, hw.seg, hw.link⟩
    obtain ⟨s', hjoin, -, hw'⟩ := hghost.join hne hfuel
    exact ⟨s', hjoin, hw'⟩

/-- Two lists of one node each are joined. -/
theorem templates_refine_join : ∃ s', join
    (addTail (addTail Links.empty false 1) true 2 : Links Nat Bool) false true = some s' ∧
      s'.head false = some 1 ∧ s'.tail false = some 2 ∧ s'.head true = none := by
  have hempty : Repr (Links.empty : Links Nat Bool) fun _ => [] := Repr.empty
  have hone : Repr (addTail Links.empty false 1 : Links Nat Bool) _ := hempty.addTail false rfl
  have htwo : Repr (addTail (addTail Links.empty false 1) true 2 : Links Nat Bool) _ :=
    hone.addTail true rfl
  obtain ⟨-, -, -, -, hjoin⟩ := templates_refine htwo.wellFormed
  obtain ⟨s', hs, hw⟩ := hjoin false true (by decide) 2 (by decide)
  exact ⟨s', hs, hw.head false, hw.tail false, hw.head true⟩

end RocketCo.CoRoutine
