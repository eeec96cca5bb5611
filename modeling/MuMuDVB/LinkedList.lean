import Mathlib.Data.List.Nodup
import Mathlib.Data.List.Perm.Subperm
import MuMuDVB.CheckedHeap

/-!
# Doubly linked lists in a heap

The blocks of a heap may be members of several lists, each with its own pair of
links. A list is described by the addresses of its members in order; what its
links say is read off every way to split that list at a member.
-/
namespace LinkedList

open CheckedMemory CheckedHeap

/-- A pair of links of a block. -/
structure Links (α : Type) where
  next : α → Option Addr
  prev : α → Option Addr
  setNext : α → Option Addr → α
  setPrev : α → Option Addr → α
  next_setNext : ∀ n p, next (setNext n p) = p
  prev_setNext : ∀ n p, prev (setNext n p) = prev n
  next_setPrev : ∀ n p, next (setPrev n p) = next n
  prev_setPrev : ∀ n p, prev (setPrev n p) = p

variable {α : Type} (L : Links α)

/-- The last member of the list that begins at `p`. -/
def lastOf : Nat → Heap α → Addr → Checked Addr
  | 0, _, _ => .error .endless
  | fuel + 1, h, p => do
    let n ← h.read p
    match L.next n with
    | none => return p
    | some q => lastOf fuel h q

/-- The members of the list that begins at `p`. -/
def membersFrom : Nat → Heap α → Option Addr → Checked (List Addr)
  | 0, _, _ => .error .endless
  | _ + 1, _, none => .ok []
  | fuel + 1, h, some p => do
    let n ← h.read p
    let later ← membersFrom fuel h (L.next n)
    return p :: later

/-- Change a block. -/
def modify (h : Heap α) (p : Addr) (f : α → α) : Checked (Heap α) := do
  let n ← h.read p
  h.write p (f n)

/-- Put block `p` behind the last member; the head of the list comes back. -/
def append (h : Heap α) (head : Option Addr) (p : Addr) : Checked (Heap α × Option Addr) :=
  match head with
  | none => do
    let h ← modify h p fun n => L.setPrev (L.setNext n none) none
    return (h, some p)
  | some c => do
    let h ← modify h p fun n => L.setNext n none
    let last ← lastOf L (h.blocks.length + 1) h c
    let h ← modify h last fun n => L.setNext n (some p)
    let h ← modify h p fun n => L.setPrev n (some last)
    return (h, some c)

/-- Take block `n` out of the list with this head; its own links stay. -/
def unlink (h : Heap α) (head : Option Addr) (n : α) : Checked (Heap α × Option Addr) := do
  let (h, head) ← (match L.prev n with
    | none => .ok (h, L.next n)
    | some p => do
      let h ← modify h p fun m => L.setNext m (L.next n)
      return (h, head) : Checked (Heap α × Option Addr))
  match L.next n with
  | none => return (h, head)
  | some q => do
    let h ← modify h q fun m => L.setPrev m (L.prev n)
    return (h, head)

/-- The blocks at these addresses are linked in this order. -/
structure Chained (h : Heap α) (as : List Addr) : Prop where
  nodup : as.Nodup
  cell : ∀ xs a ys, as = xs ++ a :: ys →
    ∃ n, h.read a = .ok n ∧ L.next n = ys.head? ∧ L.prev n = xs.getLast?

/-- A part of a block that is none of these links. -/
structure Unread {β : Type} (f : α → β) : Prop where
  setNext : ∀ n p, f (L.setNext n p) = f n
  setPrev : ∀ n p, f (L.setPrev n p) = f n

variable {L} {h h' : Heap α} {as : List Addr} {a p : Addr} {n m : α}

theorem modify_ok (hread : h.read p = .ok n) (f : α → α) : ∃ h', modify h p f = .ok h' ∧
    h'.read p = .ok (f n) ∧ ∀ q, q ≠ p → h'.read q = h.read q := by
  rw [modify, hread]
  exact Heap.write_ok hread (f n)

/-- A change of a block that a part of it does not see. -/
theorem modify_unread {β : Type} {f : α → α} {g : α → β} (hmodify : modify h p f = .ok h')
    (hg : ∀ n, h.read p = .ok n → g (f n) = g n) (q : Addr) :
    (h'.read q).map g = (h.read q).map g := by
  obtain ⟨n, hread, hwrite⟩ := bind_eq_ok.mp hmodify
  obtain ⟨h₁, hok, hself, hothers⟩ := Heap.write_ok hread (f n)
  rw [hwrite, Except.ok.injEq] at hok
  subst hok
  by_cases hq : q = p
  · rw [hq, hself, hread]
    exact congrArg Except.ok (hg n hread)
  · rw [hothers q hq]

theorem chained_nil (h : Heap α) : Chained L h [] :=
  ⟨List.nodup_nil, fun xs a ys has => by simp at has⟩

/-- A list stays one while its links stay. -/
theorem Chained.frame (hc : Chained L h as)
    (hsame : ∀ a ∈ as, ∀ n, h.read a = .ok n →
      ∃ n', h'.read a = .ok n' ∧ L.next n' = L.next n ∧ L.prev n' = L.prev n) : Chained L h' as := by
  refine ⟨hc.nodup, fun xs a ys has => ?_⟩
  obtain ⟨n, hread, hnext, hprev⟩ := hc.cell xs a ys has
  obtain ⟨n', hread', hnext', hprev'⟩ := hsame a (by rw [has]; simp) n hread
  exact ⟨n', hread', hnext'.trans hnext, hprev'.trans hprev⟩

theorem Chained.read (hc : Chained L h as) (ha : a ∈ as) : ∃ n, h.read a = .ok n := by
  obtain ⟨xs, ys, has⟩ := List.append_of_mem ha
  obtain ⟨n, hread, _⟩ := hc.cell xs a ys has
  exact ⟨n, hread⟩

/-- A list is not longer than the heap. -/
theorem Chained.length_le (hc : Chained L h as) : as.length ≤ h.blocks.length := by
  have hsub : as ⊆ List.range h.blocks.length := by
    intro a ha
    obtain ⟨n, hread⟩ := hc.read ha
    exact List.mem_range.mpr (List.getElem?_eq_some_iff.mp (Heap.read_eq_ok.mp hread)).1
  simpa using (hc.nodup.subperm hsub).length_le

/-- The walk from a member ends at the last one. -/
theorem Chained.lastOf_eq (hc : Chained L h as) {ys : List Addr} :
    ∀ {xs : List Addr} {a : Addr} {fuel : Nat}, as = xs ++ a :: ys → ys.length < fuel →
      lastOf L fuel h a = .ok ((a :: ys).getLast (List.cons_ne_nil a ys)) := by
  induction ys with
  | nil =>
    intro xs a fuel has hfuel
    obtain ⟨n, hread, hnext, _⟩ := hc.cell xs a [] has
    obtain ⟨fuel, rfl⟩ : ∃ fuel', fuel = fuel' + 1 := ⟨fuel - 1, by omega⟩
    rw [lastOf, hread, bind_ok, hnext]
    rfl
  | cons b ys ih =>
    intro xs a fuel has hfuel
    obtain ⟨n, hread, hnext, _⟩ := hc.cell xs a (b :: ys) has
    obtain ⟨fuel, rfl⟩ : ∃ fuel', fuel = fuel' + 1 := ⟨fuel - 1, by omega⟩
    rw [List.length_cons] at hfuel
    rw [lastOf, hread, bind_ok, hnext]
    exact ih (show as = (xs ++ [a]) ++ b :: ys by rw [has]; simp) (by omega)

/-- The walk from a member on finds the rest. -/
theorem Chained.membersFrom_eq (hc : Chained L h as) {ys : List Addr} :
    ∀ {xs : List Addr} {fuel : Nat}, as = xs ++ ys → ys.length < fuel →
      membersFrom L fuel h ys.head? = .ok ys := by
  induction ys with
  | nil =>
    intro xs fuel _ hfuel
    obtain ⟨fuel, rfl⟩ : ∃ fuel', fuel = fuel' + 1 := ⟨fuel - 1, by omega⟩
    rfl
  | cons a ys ih =>
    intro xs fuel has hfuel
    obtain ⟨n, hread, hnext, _⟩ := hc.cell xs a ys has
    obtain ⟨fuel, rfl⟩ : ∃ fuel', fuel = fuel' + 1 := ⟨fuel - 1, by omega⟩
    rw [List.length_cons] at hfuel
    rw [List.head?_cons, membersFrom, hread, bind_ok, hnext,
      ih (show as = (xs ++ [a]) ++ ys by rw [has]; simp) (by omega)]
    rfl

/-- What an operation on the lists leaves: all parts of blocks that are not these links. -/
def SameBut (L : Links α) (h h' : Heap α) : Prop :=
  ∀ (β : Type) (g : α → β), Unread L g → ∀ q, (h'.read q).map g = (h.read q).map g

theorem SameBut.refl (L : Links α) (h : Heap α) : SameBut L h h := fun _ _ _ _ => rfl

theorem SameBut.trans {h'' : Heap α} (hs : SameBut L h h') (hs' : SameBut L h' h'') :
    SameBut L h h'' :=
  fun β g hg q => (hs' β g hg q).trans (hs β g hg q)

/-- A list with other links stays one. -/
theorem Chained.sameBut {L' : Links α} (hc : Chained L' h as) (hsame : SameBut L h h')
    (hnext : Unread L L'.next) (hprev : Unread L L'.prev) : Chained L' h' as := by
  refine hc.frame fun a _ n hread => ?_
  have hread' := hsame _ (fun n => (L'.next n, L'.prev n))
    ⟨fun m p => by rw [hnext.setNext, hprev.setNext], fun m p => by rw [hnext.setPrev, hprev.setPrev]⟩ a
  rw [hread] at hread'
  obtain ⟨n', hread', hlinks⟩ := map_eq_ok hread'
  obtain ⟨hnext', hprev'⟩ := Prod.mk.inj hlinks
  exact ⟨n', hread', hnext', hprev'⟩

theorem sameBut_setNext {q : Option Addr}
    (hmodify : modify h p (fun n => L.setNext n q) = .ok h') : SameBut L h h' :=
  fun _ _ hg => modify_unread hmodify fun n _ => hg.setNext n q

theorem sameBut_setPrev {q : Option Addr}
    (hmodify : modify h p (fun n => L.setPrev n q) = .ok h') : SameBut L h h' :=
  fun _ _ hg => modify_unread hmodify fun n _ => hg.setPrev n q

/-- A list whose members are not changed. -/
theorem Chained.apart (hc : Chained L h as) (hp : p ∉ as)
    (hothers : ∀ q, q ≠ p → h'.read q = h.read q) : Chained L h' as :=
  hc.frame fun a ha n hread =>
    ⟨n, by rw [hothers a (ne_of_mem_of_not_mem ha hp), hread], rfl, rfl⟩

/-- The ways to split a list with one more member. -/
theorem split_concat {xs ys : List Addr} {b : Addr} (h : as ++ [p] = xs ++ b :: ys) :
    (ys = [] ∧ b = p ∧ xs = as) ∨ ∃ zs, ys = zs ++ [p] ∧ as = xs ++ b :: zs := by
  rcases List.eq_nil_or_concat ys with rfl | ⟨zs, c, rfl⟩
  · obtain ⟨rfl, hb⟩ := List.append_inj' h rfl
    exact Or.inl ⟨rfl, (List.cons.inj hb).1.symm, rfl⟩
  · rw [List.concat_eq_append] at h ⊢
    rw [← List.cons_append, ← List.append_assoc] at h
    obtain ⟨has, hc⟩ := List.append_inj' h rfl
    rw [(List.cons.inj hc).1]
    exact Or.inr ⟨zs, rfl, has⟩

/-- Nothing is behind the last member. -/
theorem Chained.nodup_last (hc : Chained L h as) {xs ys : List Addr} (has : as = xs ++ a :: ys)
    {hne : as ≠ []} (hlast : as.getLast hne = a) : ys = [] := by
  by_contra hys
  have hmem : a ∈ ys := by
    rw [← hlast]
    subst has
    rw [List.getLast_append_of_right_ne_nil _ _ (List.cons_ne_nil a ys), List.getLast_cons hys]
    exact List.getLast_mem hys
  have hnodup := hc.nodup
  rw [has] at hnodup
  exact (List.nodup_cons.mp (List.nodup_append.mp hnodup).2.1).1 hmem

/-- The new block is the last one. -/
theorem append_spec (hc : Chained L h as) (hp : p ∉ as) (hread : h.read p = .ok n) :
    ∃ h', append L h as.head? p = .ok (h', (as ++ [p]).head?) ∧ Chained L h' (as ++ [p]) ∧
      SameBut L h h' ∧ ∀ q, q ∉ as ++ [p] → h'.read q = h.read q := by
  cases as with
  | nil =>
    obtain ⟨h₁, hmodify, hself, hothers⟩ := modify_ok hread fun n =>
      L.setPrev (L.setNext n none) none
    refine ⟨h₁, ?_, ⟨List.nodup_singleton p, fun xs b ys has => ?_⟩, fun β g hg => ?_,
      fun q hq => hothers q (by simpa using hq)⟩
    · rw [List.head?_nil, append, hmodify]
      rfl
    · obtain ⟨rfl, rfl, rfl⟩ | ⟨zs, _, hnil⟩ := split_concat has
      · exact ⟨_, hself, by rw [L.next_setPrev, L.next_setNext]; rfl, by rw [L.prev_setPrev]; rfl⟩
      · simp at hnil
    · exact modify_unread hmodify fun m _ => by rw [hg.setPrev, hg.setNext]
  | cons c rest =>
    obtain ⟨h₁, hmodify₁, hself₁, hothers₁⟩ := modify_ok hread fun n => L.setNext n none
    have hc₁ : Chained L h₁ (c :: rest) := hc.apart hp hothers₁
    have hlen := hc₁.length_le
    rw [List.length_cons] at hlen
    have hlast := hc₁.lastOf_eq (show c :: rest = [] ++ c :: rest from rfl)
      (show rest.length < h₁.blocks.length + 1 by omega)
    obtain ⟨last, hlastEq⟩ : ∃ last, (c :: rest).getLast (List.cons_ne_nil c rest) = last := ⟨_, rfl⟩
    rw [hlastEq] at hlast
    have hmem : last ∈ c :: rest := by
      rw [← hlastEq]
      exact List.getLast_mem _
    have hne : last ≠ p := ne_of_mem_of_not_mem hmem hp
    obtain ⟨m, hreadLast⟩ := hc₁.read hmem
    obtain ⟨h₂, hmodify₂, hself₂, hothers₂⟩ := modify_ok hreadLast fun n => L.setNext n (some p)
    obtain ⟨h₃, hmodify₃, hself₃, hothers₃⟩ := modify_ok (show h₂.read p = _ by
      rw [hothers₂ p hne.symm, hself₁]) fun n => L.setPrev n (some last)
    refine ⟨h₃, ?_, ⟨?_, fun xs b ys has => ?_⟩,
      ((sameBut_setNext hmodify₁).trans (sameBut_setNext hmodify₂)).trans
        (sameBut_setPrev hmodify₃), fun q hq => ?_⟩
    · rw [List.head?_cons, append, hmodify₁, bind_ok, hlast, bind_ok, hmodify₂, bind_ok, hmodify₃]
      rfl
    · exact List.nodup_append.mpr ⟨hc.nodup, List.nodup_singleton p, fun a ha b hb =>
        (List.mem_singleton.mp hb) ▸ ne_of_mem_of_not_mem ha hp⟩
    · obtain ⟨rfl, rfl, rfl⟩ | ⟨zs, rfl, hsplit⟩ := split_concat has
      · refine ⟨_, hself₃, ?_, ?_⟩
        · rw [L.next_setPrev, L.next_setNext]
          rfl
        · rw [L.prev_setPrev, List.getLast?_eq_some_getLast (List.cons_ne_nil c rest), hlastEq]
      · have hb : b ∈ c :: rest := by
          rw [hsplit]
          simp
        obtain ⟨k, hreadB, hnext, hprev⟩ := hc₁.cell xs b zs hsplit
        by_cases hbl : b = last
        · subst hbl
          rw [hreadLast, Except.ok.injEq] at hreadB
          subst hreadB
          have hzs : zs = [] := hc.nodup_last hsplit hlastEq
          refine ⟨_, by rw [hothers₃ b hne, hself₂], ?_, ?_⟩
          · rw [L.next_setNext, hzs]
            rfl
          · rw [L.prev_setNext, hprev]
        · have hbp : b ≠ p := ne_of_mem_of_not_mem hb hp
          refine ⟨k, by rw [hothers₃ b hbp, hothers₂ b hbl, hreadB], ?_, hprev⟩
          rw [hnext]
          cases zs with
          | nil =>
            have hlastB : (c :: rest).getLast? = some b := by rw [hsplit, List.getLast?_concat]
            rw [List.getLast?_eq_some_getLast (List.cons_ne_nil c rest), hlastEq,
              Option.some.injEq] at hlastB
            exact absurd hlastB.symm hbl
          | cons z zs => rfl
    · rw [List.mem_append, List.mem_singleton, not_or] at hq
      rw [hothers₃ q hq.2, hothers₂ q fun hlast => hq.1 (hlast ▸ hmem), hothers₁ q hq.2]

/-- The first step of taking `n` out: the member before it, or the head, gets what is behind it. -/
theorem unlink_before {xs ys : List Addr} (hc : Chained L h (xs ++ a :: ys))
    (hread : h.read a = .ok n) :
    ∃ h₁, (match L.prev n with
        | none => .ok (h, L.next n)
        | some p => do
          let h ← modify h p fun m => L.setNext m (L.next n)
          return (h, (xs ++ a :: ys).head?) : Checked (Heap α × Option Addr)) =
        .ok (h₁, (xs ++ ys).head?) ∧ SameBut L h h₁ ∧ (∀ b, b ∉ xs → h₁.read b = h.read b) ∧
      ∀ b ∈ xs, ∀ k, h.read b = .ok k → ∃ k', h₁.read b = .ok k' ∧ L.prev k' = L.prev k ∧
        L.next k' = if xs.getLast? = some b then ys.head? else L.next k := by
  obtain ⟨n', hread', hnext, hprev⟩ := hc.cell xs a ys rfl
  rw [hread, Except.ok.injEq] at hread'
  subst hread'
  rcases List.eq_nil_or_concat xs with rfl | ⟨ws, p, rfl⟩
  · refine ⟨h, ?_, SameBut.refl L h, fun _ _ => rfl, fun b hb => by simp at hb⟩
    rw [hprev, hnext]
    rfl
  · rw [List.concat_eq_append] at *
    have hlast : (ws ++ [p]).getLast? = some p := List.getLast?_concat
    have hp : p ∈ ws ++ [p] ++ a :: ys := by simp
    obtain ⟨m, hreadP⟩ := hc.read hp
    obtain ⟨h₁, hmodify, hself, hothers⟩ := modify_ok hreadP fun m => L.setNext m (L.next n)
    refine ⟨h₁, ?_, sameBut_setNext hmodify, fun b hb => ?_, fun b _ k hk => ?_⟩
    · rw [hprev, hlast]
      dsimp only
      rw [hmodify]
      cases ws <;> rfl
    · exact hothers b fun hbp => hb (by rw [hbp]; simp)
    · by_cases hbp : b = p
      · subst hbp
        rw [hreadP, Except.ok.injEq] at hk
        subst hk
        exact ⟨_, hself, L.prev_setNext _ _, by rw [L.next_setNext, hlast, if_pos rfl, hnext]⟩
      · refine ⟨k, by rw [hothers b hbp, hk], rfl, ?_⟩
        rw [hlast, if_neg fun h => hbp (Option.some.inj h).symm]

/-- The second step: the member behind it gets what is before it. -/
theorem unlink_behind {ys : List Addr} {head prev : Option Addr}
    (hys : ∀ b ∈ ys, ∃ k, h.read b = .ok k) :
    ∃ h₁, (match ys.head? with
        | none => return (h, head)
        | some q => do
          let h ← modify h q fun m => L.setPrev m prev
          return (h, head) : Checked (Heap α × Option Addr)) = .ok (h₁, head) ∧
      SameBut L h h₁ ∧ (∀ b, b ∉ ys → h₁.read b = h.read b) ∧
      ∀ b ∈ ys, ∀ k, h.read b = .ok k → ∃ k', h₁.read b = .ok k' ∧ L.next k' = L.next k ∧
        L.prev k' = if ys.head? = some b then prev else L.prev k := by
  cases ys with
  | nil => exact ⟨h, rfl, SameBut.refl L h, fun _ _ => rfl, fun b hb => by simp at hb⟩
  | cons q rest =>
    obtain ⟨m, hreadQ⟩ := hys q List.mem_cons_self
    obtain ⟨h₁, hmodify, hself, hothers⟩ := modify_ok hreadQ fun m => L.setPrev m prev
    refine ⟨h₁, ?_, sameBut_setPrev hmodify, fun b hb => ?_, fun b _ k hk => ?_⟩
    · rw [List.head?_cons]
      dsimp only
      rw [hmodify]
      rfl
    · exact hothers b fun hbq => hb (by rw [hbq]; simp)
    · by_cases hbq : b = q
      · subst hbq
        rw [hreadQ, Except.ok.injEq] at hk
        subst hk
        exact ⟨_, hself, L.next_setPrev _ _, by rw [L.prev_setPrev, List.head?_cons, if_pos rfl]⟩
      · refine ⟨k, by rw [hothers b hbq, hk], rfl, ?_⟩
        rw [List.head?_cons, if_neg fun h => hbq (Option.some.inj h).symm]

/-- A member of two lists in a row is one of the second or of the first. -/
theorem split_append {xs ys us vs : List Addr} {b : Addr} (h : xs ++ ys = us ++ b :: vs) :
    (∃ ws, us = xs ++ ws ∧ ys = ws ++ b :: vs) ∨ ∃ ws, xs = us ++ b :: ws ∧ vs = ws ++ ys := by
  rcases List.append_eq_append_iff.mp h with ⟨ws, hus, hys⟩ | ⟨ws, hxs, hws⟩
  · exact Or.inl ⟨ws, hus, hys⟩
  · cases ws with
    | nil => exact Or.inl ⟨[], by rw [hxs, List.append_nil, List.append_nil], hws.symm⟩
    | cons w ws =>
      obtain ⟨rfl, hvs⟩ := List.cons.inj hws
      exact Or.inr ⟨ws, hxs, hvs⟩

/-- A member that is taken out; the order of the others stays. -/
theorem unlink_spec {xs ys : List Addr} (hc : Chained L h (xs ++ a :: ys))
    (hread : h.read a = .ok n) :
    ∃ h', unlink L h (xs ++ a :: ys).head? n = .ok (h', (xs ++ ys).head?) ∧
      Chained L h' (xs ++ ys) ∧ SameBut L h h' ∧ ∀ q, q ∉ xs ++ ys → h'.read q = h.read q := by
  obtain ⟨n', hread', hnext, hprev⟩ := hc.cell xs a ys rfl
  rw [hread, Except.ok.injEq] at hread'
  subst hread'
  have hnodup := hc.nodup
  have hsub : (xs ++ ys).Nodup := hnodup.sublist (by simp)
  have hxy : ∀ b ∈ xs, b ∉ ys := fun b hb hb' =>
    (List.nodup_append.mp hsub).2.2 b hb b hb' rfl
  obtain ⟨h₁, hbefore, hsame₁, hothers₁, hin₁⟩ := unlink_before hc hread
  obtain ⟨h₂, hbehind, hsame₂, hothers₂, hin₂⟩ := @unlink_behind α L h₁ ys (xs ++ ys).head?
    (L.prev n) fun b hb => by
      rw [hothers₁ b fun hb' => hxy b hb' hb]
      exact hc.read (by simp [hb])
  refine ⟨h₂, ?_, ⟨hsub, fun us b vs hsplit => ?_⟩, hsame₁.trans hsame₂,
    fun q hq => ?_⟩
  · rw [unlink, hbefore, bind_ok]
    dsimp only
    rw [hnext]
    exact hbehind
  · rcases split_append hsplit with ⟨ws, rfl, hys⟩ | ⟨ws, hxs, rfl⟩
    · -- the member is behind the one taken out
      have hb : b ∈ ys := by
        rw [hys]
        simp
      obtain ⟨k, hreadB, hnextB, hprevB⟩ := hc.cell (xs ++ a :: ws) b vs (by rw [hys]; simp)
      obtain ⟨k', hreadB', hnext', hprev'⟩ := hin₂ b hb k (by
        rw [hothers₁ b fun hb' => hxy b hb' hb, hreadB])
      refine ⟨k', hreadB', hnext'.trans hnextB, ?_⟩
      rw [hprev', hprev, hys]
      cases ws with
      | nil => simp
      | cons w ws =>
        have hwb : w ≠ b := by
          rw [hys] at hsub
          rintro rfl
          exact (List.nodup_cons.mp (List.nodup_append.mp hsub).2.1).1 (by simp)
        rw [List.cons_append, List.head?_cons, if_neg fun h => hwb (Option.some.inj h), hprevB]
        simp [List.getLast?_append]
    · -- it is before it
      have hb : b ∈ xs := by
        rw [hxs]
        simp
      obtain ⟨k, hreadB, hnextB, hprevB⟩ := hc.cell us b (ws ++ a :: ys) (by rw [hxs]; simp)
      obtain ⟨k', hreadB', hprev', hnext'⟩ := hin₁ b hb k hreadB
      refine ⟨k', by rw [hothers₂ b (hxy b hb), hreadB'], ?_, hprev'.trans hprevB⟩
      rw [hnext', hxs]
      cases ws with
      | nil => simp
      | cons w ws =>
        have hlast : (us ++ b :: w :: ws).getLast? ≠ some b := by
          intro hlast
          have hmem : b ∈ w :: ws := by
            rw [← List.singleton_append, ← List.append_assoc, List.getLast?_append_cons] at hlast
            exact List.mem_of_getLast? hlast
          rw [hxs] at hsub
          have hnodupB := (List.nodup_append.mp (List.nodup_append.mp hsub).1).2.1
          exact (List.nodup_cons.mp hnodupB).1 hmem
        rw [if_neg hlast, hnextB]
        rfl
  · rw [List.mem_append, not_or] at hq
    rw [hothers₂ q hq.2, hothers₁ q hq.1]

end LinkedList
