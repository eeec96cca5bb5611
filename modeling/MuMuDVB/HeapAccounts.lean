import MuMuDVB.LinkedList

/-!
# Accounts of a heap

The blocks of a heap that have not been released are weighed. Each primitive
changes the total by the weight of the block it is called for, so that an account
of what a program has allocated follows the program and needs no list of owners.
-/
namespace HeapAccounts

open CheckedMemory CheckedHeap LinkedList

variable {α : Type}

def weigh (w : α → Nat) : List (Option α) → Nat
  | [] => 0
  | none :: bs => weigh w bs
  | some a :: bs => w a + weigh w bs

/-- The weight of all blocks. -/
def total (w : α → Nat) (h : Heap α) : Nat := weigh w h.blocks

/-- How many blocks there are. -/
def live (h : Heap α) : Nat := total (fun _ => 1) h

variable {w : α → Nat} {h h' : Heap α} {p : Addr} {a b : α} {bs : List (Option α)} {i : Nat}

theorem weigh_append (bs cs : List (Option α)) : weigh w (bs ++ cs) = weigh w bs + weigh w cs := by
  induction bs with
  | nil => exact (Nat.zero_add _).symm
  | cons b bs ih =>
    cases b with
    | none => exact ih
    | some a =>
      rw [List.cons_append, weigh, weigh, ih, Nat.add_assoc]

/-- A block is exchanged. -/
theorem weigh_set (hi : bs[i]? = some (some a)) (b : Option α) :
    weigh w (bs.set i b) + w a = weigh w bs + b.elim 0 w := by
  induction bs generalizing i with
  | nil => cases hi
  | cons c bs ih =>
    cases i with
    | zero =>
      rw [List.getElem?_cons_zero, Option.some.injEq] at hi
      subst hi
      cases b <;> simp only [List.set_cons_zero, weigh, Option.elim_none, Option.elim_some] <;>
        omega
    | succ i =>
      have hrest := ih hi
      cases c <;> simp only [List.set_cons_succ, weigh] <;> omega

theorem total_alloc (h : Heap α) (a : α) : total w (h.alloc a).2 = total w h + w a := by
  rw [total, Heap.alloc, weigh_append]
  rfl

theorem total_write (hread : h.read p = .ok a) (hwrite : h.write p b = .ok h') :
    total w h' + w a = total w h + w b := by
  rw [Heap.write, hread, bind_ok] at hwrite
  cases hwrite
  exact weigh_set (Heap.read_eq_ok.mp hread) (some b)

theorem total_free (hread : h.read p = .ok a) (hfree : h.free p = .ok h') :
    total w h' + w a = total w h := by
  rw [Heap.free, hread, bind_ok] at hfree
  cases hfree
  exact weigh_set (Heap.read_eq_ok.mp hread) none

theorem live_write (hwrite : h.write p b = .ok h') : live h' = live h := by
  obtain ⟨a, hread, -⟩ := bind_eq_ok.mp hwrite
  have htotal := total_write (w := fun _ => 1) hread hwrite
  rw [live, live]
  omega

theorem live_free (hfree : h.free p = .ok h') : live h' + 1 = live h := by
  obtain ⟨a, hread, -⟩ := bind_eq_ok.mp hfree
  exact total_free hread hfree

theorem weigh_of_live {bs : List (Option α)} (hlive : weigh (fun _ => 1) bs = 0) (w : α → Nat) :
    weigh w bs = 0 := by
  induction bs with
  | nil => rfl
  | cons b bs ih =>
    cases b with
    | none => exact ih hlive
    | some a =>
      rw [weigh] at hlive
      omega

/-- Nothing weighs nothing. -/
theorem total_of_live (hlive : live h = 0) (w : α → Nat) : total w h = 0 := weigh_of_live hlive w

/-- A change of a block that its weight does not see. -/
theorem total_modify {f : α → α} (hf : ∀ n, w (f n) = w n) (hmodify : modify h p f = .ok h') :
    total w h' = total w h := by
  obtain ⟨n, hread, hwrite⟩ := bind_eq_ok.mp hmodify
  have htotal := total_write (w := w) hread hwrite
  rw [hf] at htotal
  omega

section lists

variable {L : Links α} {head head' : Option Addr} {n : α}

theorem total_append (hw : Unread L w) (happend : append L h head p = .ok (h', head')) :
    total w h' = total w h := by
  cases head with
  | none =>
    obtain ⟨h₁, hfirst, happend⟩ := bind_eq_ok.mp happend
    cases happend
    exact total_modify (fun n => by rw [hw.setPrev, hw.setNext]) hfirst
  | some c =>
    obtain ⟨h₁, hfirst, happend⟩ := bind_eq_ok.mp happend
    obtain ⟨last, -, happend⟩ := bind_eq_ok.mp happend
    obtain ⟨h₂, hsecond, happend⟩ := bind_eq_ok.mp happend
    obtain ⟨h₃, hthird, happend⟩ := bind_eq_ok.mp happend
    cases happend
    rw [total_modify (fun n => hw.setPrev n _) hthird,
      total_modify (fun n => hw.setNext n _) hsecond, total_modify (fun n => hw.setNext n _) hfirst]

theorem total_unlink (hw : Unread L w) (hunlink : unlink L h head n = .ok (h', head')) :
    total w h' = total w h := by
  obtain ⟨⟨h₁, head₁⟩, hfirst, hunlink⟩ := bind_eq_ok.mp hunlink
  have hbefore : total w h₁ = total w h := by
    cases hprev : L.prev n with
    | none =>
      rw [hprev] at hfirst
      cases hfirst
      rfl
    | some q =>
      rw [hprev] at hfirst
      obtain ⟨h₂, hmodify, hfirst⟩ := bind_eq_ok.mp hfirst
      cases hfirst
      exact total_modify (fun n => hw.setNext n _) hmodify
  cases hnext : L.next n with
  | none =>
    rw [hnext] at hunlink
    cases hunlink
    exact hbefore
  | some q =>
    rw [hnext] at hunlink
    obtain ⟨h₂, hmodify, hunlink⟩ := bind_eq_ok.mp hunlink
    cases hunlink
    rw [total_modify (fun n => hw.setPrev n _) hmodify, hbefore]

/-- What a change of links does not see stays in every block. -/
theorem unlink_unread {β : Type} {g : α → β} (hg : Unread L g)
    (hunlink : unlink L h head n = .ok (h', head')) (q : Addr) :
    (h'.read q).map g = (h.read q).map g := by
  obtain ⟨⟨h₁, head₁⟩, hfirst, hunlink⟩ := bind_eq_ok.mp hunlink
  have hbefore : (h₁.read q).map g = (h.read q).map g := by
    cases hprev : L.prev n with
    | none =>
      rw [hprev] at hfirst
      cases hfirst
      rfl
    | some p =>
      rw [hprev] at hfirst
      obtain ⟨h₂, hmodify, hfirst⟩ := bind_eq_ok.mp hfirst
      cases hfirst
      exact modify_unread hmodify (fun m _ => hg.setNext m _) q
  cases hnext : L.next n with
  | none =>
    rw [hnext] at hunlink
    cases hunlink
    exact hbefore
  | some p =>
    rw [hnext] at hunlink
    obtain ⟨h₂, hmodify, hunlink⟩ := bind_eq_ok.mp hunlink
    cases hunlink
    exact (modify_unread hmodify (fun m _ => hg.setPrev m _) q).trans hbefore

end lists

end HeapAccounts
