import MuMuDVB.ClientLists

/-!
# The descriptors that are polled

The two arrays have an entry for every listening socket and every client. An
entry is added at the end, and the last one moves to the place of one that is
removed.
-/
namespace MuMuDVB.FdTable

open CheckedMemory CheckedHeap MuMuDVB.UnicastClients MuMuDVB.ClientLists

/-- The client of an entry for a client. -/
def ofClient (info : FdInfo) : Option Addr :=
  if info.type = .client then info.client else none

/-- The two arrays, for the clients `all`. -/
structure Fds (s : UnicastVars) (all : List Addr) : Prop where
  pfds : s.pfds.length = s.pfdsnum + 1
  fdInfo : s.fdInfo.length = s.pfdsnum
  distinct : (s.pfds.take s.pfdsnum).Nodup
  entries : (s.fdInfo.filterMap ofClient).Perm all
  sockets : ∀ (i : Nat) (info : FdInfo), s.fdInfo[i]? = some info → info.type = .client →
    ∃ a c, info.client = some a ∧ coreOf s.heap a = .ok c ∧ s.pfds[i]? = some c.socket

section swap

variable {α : Type} {xs : List α} {i j n : Nat} {last : α}

/-- Entry `j` after the last one has moved to place `i`. -/
theorem getElem?_swap (hlast : xs[n]? = some last) (hj : j < n) :
    ((xs.set i last).take n)[j]? = xs[if j = i then n else j]? := by
  have hlt : n < xs.length := (List.getElem?_eq_some_iff.mp hlast).1
  rw [List.getElem?_take_of_lt hj]
  by_cases hji : j = i
  · rw [if_pos hji, hji, List.getElem?_set_self (by omega), hlast]
  · rw [if_neg hji, List.getElem?_set_ne (Ne.symm hji)]

/-- The others are still there. -/
theorem swap_perm (hlen : xs.length = n + 1) (hlast : xs[n]? = some last) (hi : i ≤ n) :
    ((xs.set i last).take n).Perm (xs.eraseIdx i) := by
  obtain ⟨ys, rfl⟩ : ∃ ys, xs = ys ++ [last] := by
    rcases List.eq_nil_or_concat xs with rfl | ⟨ys, b, rfl⟩
    · cases hlast
    · rw [List.concat_eq_append] at hlast hlen ⊢
      rw [List.length_append, List.length_singleton, Nat.add_right_cancel_iff] at hlen
      rw [← hlen, List.getElem?_concat_length, Option.some.injEq] at hlast
      exact ⟨ys, by rw [hlast]⟩
  rw [List.length_append, List.length_singleton, Nat.add_right_cancel_iff] at hlen
  by_cases hlt : i < ys.length
  · rw [List.set_append_left _ _ hlt, List.take_append_of_le_length (by rw [List.length_set]; omega),
      List.take_of_length_le (by rw [List.length_set]; omega), List.eraseIdx_append_of_lt_length hlt]
    exact (List.set_perm_cons_eraseIdx hlt last).trans (List.perm_append_singleton last _).symm
  · have hlast' : i = ys.length := by omega
    rw [hlast', List.eraseIdx_append_of_length_le (Nat.le_refl _), Nat.sub_self,
      List.set_append_right _ _ (Nat.le_refl _), ← hlen, List.take_left]
    simp

end swap

variable {s s' : UnicastVars} {all : List Addr} {a : Addr} {info : FdInfo} {fd : Int}

theorem ofClient_client (htype : info.type = .client) : ofClient info = info.client := if_pos htype

theorem ofClient_other (htype : info.type ≠ .client) : ofClient info = none := if_neg htype

/-- The client of an entry is one of the clients. -/
theorem Fds.mem (hf : Fds s all) {i : Nat} (hinfo : s.fdInfo[i]? = some info)
    (htype : info.type = .client) (hclient : info.client = some a) : a ∈ all :=
  hf.entries.mem_iff.mp (List.mem_filterMap.mpr ⟨info, List.mem_of_getElem? hinfo, by
    rw [ofClient_client htype, hclient]⟩)

/-- Every client has an entry. -/
theorem Fds.entry (hf : Fds s all) (ha : a ∈ all) :
    ∃ (i : Nat) (info : FdInfo) (c : Core), s.fdInfo[i]? = some info ∧ info.type = .client ∧
      info.client = some a ∧ coreOf s.heap a = .ok c ∧ s.pfds[i]? = some c.socket := by
  obtain ⟨info, hmem, hof⟩ := List.mem_filterMap.mp (hf.entries.mem_iff.mpr ha)
  obtain ⟨i, hinfo⟩ := List.getElem?_of_mem hmem
  have htype : info.type = .client := by
    by_contra htype
    rw [ofClient_other htype] at hof
    cases hof
  rw [ofClient_client htype] at hof
  obtain ⟨b, c, hb, hc, hpfd⟩ := hf.sockets i info hinfo htype
  rw [hof, Option.some.injEq] at hb
  exact ⟨i, info, c, hinfo, htype, hof, hb ▸ hc, hpfd⟩

/-- The arrays stay right while they and the sockets of the clients stay. -/
theorem Fds.congr (hf : Fds s all) (hpfds : s'.pfds = s.pfds) (hinfo : s'.fdInfo = s.fdInfo)
    (hnum : s'.pfdsnum = s.pfdsnum) (hcore : ∀ a ∈ all, ∀ c, coreOf s.heap a = .ok c →
      ∃ c', coreOf s'.heap a = .ok c' ∧ c'.socket = c.socket) : Fds s' all := by
  refine ⟨by rw [hpfds, hnum, hf.pfds], by rw [hinfo, hnum, hf.fdInfo], by
    rw [hpfds, hnum]; exact hf.distinct, by rw [hinfo]; exact hf.entries, fun i info h htype => ?_⟩
  rw [hinfo] at h
  obtain ⟨a, c, ha, hc, hpfd⟩ := hf.sockets i info h htype
  obtain ⟨c', hc', hsocket⟩ := hcore a (hf.mem h htype ha) c hc
  exact ⟨a, c', ha, hc', by rw [hpfds, hpfd, hsocket]⟩

theorem Fds.polled_addFd (hf : Fds s all) (fd : Int) (info : FdInfo) :
    (s.addFd fd info).pfds.take (s.pfdsnum + 1) = s.pfds.take s.pfdsnum ++ [fd] := by
  have hlt : s.pfdsnum < s.pfds.length := by
    rw [hf.pfds]
    omega
  rw [UnicastVars.addFd, List.take_append_of_le_length (by rw [List.length_set]; omega),
    List.take_add_one, List.take_set_of_le (Nat.le_refl _), List.getElem?_set_self hlt]
  rfl

/-- A new entry, for a descriptor that is not polled yet. -/
theorem Fds.addFd (hf : Fds s all) (hfresh : fd ∉ s.pfds.take s.pfdsnum)
    (hclient : info.type = .client → ∃ a c, info.client = some a ∧ coreOf s.heap a = .ok c ∧
      c.socket = fd) : Fds (s.addFd fd info) (all ++ (ofClient info).toList) := by
  have hlt := hf.pfds
  have htake := hf.polled_addFd fd info
  refine ⟨?_, ?_, ?_, ?_, fun i info' hinfo' htype => ?_⟩
  · show (s.pfds.set s.pfdsnum fd ++ [0]).length = s.pfdsnum + 1 + 1
    rw [List.length_append, List.length_set, hf.pfds, List.length_singleton]
  · show (s.fdInfo ++ [info]).length = s.pfdsnum + 1
    rw [List.length_append, hf.fdInfo, List.length_singleton]
  · show ((s.addFd fd info).pfds.take (s.pfdsnum + 1)).Nodup
    rw [htake, List.nodup_append]
    exact ⟨hf.distinct, List.nodup_singleton fd, fun b hb c hc => by
      rw [List.mem_singleton.mp hc]
      exact ne_of_mem_of_not_mem hb hfresh⟩
  · show ((s.fdInfo ++ [info]).filterMap ofClient).Perm _
    rw [List.filterMap_append]
    refine hf.entries.append ?_
    rw [List.filterMap_cons, List.filterMap_nil]
    cases ofClient info <;> exact List.Perm.refl _
  · have hpfd : ∀ j ≤ s.pfdsnum, (s.addFd fd info).pfds[j]? =
        (s.pfds.take s.pfdsnum ++ [fd])[j]? := fun j hj => by
      rw [← htake, List.getElem?_take_of_lt (by omega)]
    have hlen : (s.pfds.take s.pfdsnum).length = s.pfdsnum := by
      rw [List.length_take]
      omega
    change (s.fdInfo ++ [info])[i]? = some info' at hinfo'
    by_cases hi : i < s.fdInfo.length
    · rw [List.getElem?_append_left hi] at hinfo'
      obtain ⟨a, c, ha, hc, hsocket⟩ := hf.sockets i info' hinfo' htype
      rw [hf.fdInfo] at hi
      exact ⟨a, c, ha, hc, by
        rw [hpfd i (by omega), List.getElem?_append_left (by omega), List.getElem?_take_of_lt hi,
          hsocket]⟩
    · obtain ⟨hieq, rfl⟩ : i = s.fdInfo.length ∧ info = info' := by
        have hlt' := (List.getElem?_eq_some_iff.mp hinfo').1
        rw [List.length_append, List.length_singleton] at hlt'
        have hieq : i = s.fdInfo.length := by omega
        rw [hieq, List.getElem?_concat_length, Option.some.injEq] at hinfo'
        exact ⟨hieq, hinfo'⟩
      obtain ⟨a, c, ha, hc, hsocket⟩ := hclient htype
      refine ⟨a, c, ha, hc, ?_⟩
      rw [hpfd i (by rw [hieq, hf.fdInfo]), List.getElem?_append_right (by rw [hieq, hf.fdInfo]; omega),
        hlen, hieq, hf.fdInfo, Nat.sub_self, hsocket]
      rfl

/-- The entry of a client goes, and the last one moves to its place. -/
theorem Fds.moveLastFd (hf : Fds s all) {i : Nat} {rest : List Addr}
    (hinfo : s.fdInfo[i]? = some info) (htype : info.type = .client)
    (hclient : info.client = some a) (hrest : all.Perm (a :: rest))
    (hpfds' : s'.pfds = s.pfds) (hinfo' : s'.fdInfo = s.fdInfo) (hnum' : s'.pfdsnum = s.pfdsnum)
    (hcore : ∀ b ∈ all, b ≠ a → coreOf s'.heap b = coreOf s.heap b) :
    ∃ s'', moveLastFd s' i = .ok s'' ∧ Fds s'' rest ∧
      s'' = { s' with pfds := s''.pfds, fdInfo := s''.fdInfo, pfdsnum := s''.pfdsnum } := by
  have hlt : i < s.pfdsnum := by
    rw [← hf.fdInfo]
    exact (List.getElem?_eq_some_iff.mp hinfo).1
  obtain ⟨n, hn⟩ : ∃ n, s.pfdsnum = n + 1 := ⟨s.pfdsnum - 1, by omega⟩
  obtain ⟨hlenPfds, hlenInfo, hdistinct⟩ := (⟨hf.pfds, hf.fdInfo, hf.distinct⟩ : _ ∧ _ ∧ _)
  rw [hn] at hlenPfds hlenInfo hdistinct hlt
  obtain ⟨fd, hfd⟩ : ∃ fd, s.pfds[n]? = some fd := ⟨_, List.getElem?_eq_getElem (by omega)⟩
  obtain ⟨last, hlast⟩ : ∃ last, s.fdInfo[n]? = some last := ⟨_, List.getElem?_eq_getElem (by omega)⟩
  obtain ⟨pfds', hpfds⟩ : ∃ pfds', ((s.pfds.set i fd).set n 0).take (n + 1) = pfds' := ⟨_, rfl⟩
  -- the entries that are left, without the one for `poll`
  have htake : pfds'.take n = ((s.pfds.take (n + 1)).set i fd).take n := by
    rw [← hpfds, List.take_take, List.take_set, List.take_set, List.take_set, List.take_take,
      Nat.min_eq_left (Nat.le_succ n)]
    refine List.set_eq_of_length_le ?_
    rw [List.length_set, List.length_take]
    omega
  have hfdTake : (s.pfds.take (n + 1))[n]? = some fd := by
    rw [List.getElem?_take_of_lt (Nat.lt_succ_self n), hfd]
  have hlenTake : (s.pfds.take (n + 1)).length = n + 1 := by
    rw [List.length_take]
    omega
  refine ⟨{ s' with pfds := pfds', fdInfo := (s.fdInfo.set i last).take n, pfdsnum := n }, ?_,
    ⟨?_, ?_, ?_, ?_, fun j info' hentry htype' => ?_⟩, rfl⟩
  · rw [UnicastClients.moveLastFd, hpfds', hinfo', hnum', hn, Nat.add_sub_cancel, hfd, hlast]
    dsimp only
    rw [hpfds]
  · show pfds'.length = n + 1
    rw [← hpfds, List.length_take, List.length_set, List.length_set]
    omega
  · show ((s.fdInfo.set i last).take n).length = n
    rw [List.length_take, List.length_set]
    omega
  · show (pfds'.take n).Nodup
    rw [htake]
    exact (swap_perm (i := i) hlenTake hfdTake (by omega)).nodup_iff.mpr
      (hdistinct.sublist (List.eraseIdx_sublist _ _))
  · show (((s.fdInfo.set i last).take n).filterMap ofClient).Perm rest
    have hperm := (swap_perm (i := i) hlenInfo hlast (by omega)).filterMap ofClient
    have hall := ((List.getElem_cons_eraseIdx_perm (l := s.fdInfo) (n := i) (by omega)).filterMap
      ofClient).trans (hf.entries.trans hrest)
    rw [(List.getElem?_eq_some_iff.mp hinfo).2, List.filterMap_cons, ofClient_client htype,
      hclient] at hall
    exact hperm.trans (List.Perm.cons_inv hall)
  · have hj : j < n := by
      have hltj := (List.getElem?_eq_some_iff.mp hentry).1
      rw [List.length_take] at hltj
      omega
    rw [getElem?_swap hlast hj] at hentry
    obtain ⟨b, c, hb, hc, hsocket⟩ := hf.sockets _ info' hentry htype'
    have hne : b ≠ a := by
      rintro rfl
      obtain ⟨a', c', ha', hc', hsocket'⟩ := hf.sockets i info hinfo htype
      rw [hclient, Option.some.injEq] at ha'
      subst ha'
      rw [hc, Except.ok.injEq] at hc'
      subst hc'
      have hk : (if j = i then n else j) = i := (List.getElem?_inj (by
        rw [hlenTake]
        split <;> omega) hdistinct).mp (by
        rw [List.getElem?_take_of_lt (by split <;> omega), List.getElem?_take_of_lt hlt, hsocket,
          hsocket'])
      split at hk <;> omega
    refine ⟨b, c, hb, by rw [hcore b (hf.mem hentry htype' hb) hne, hc], ?_⟩
    rw [← hsocket]
    have hswap := getElem?_swap (i := i) hfdTake hj
    rwa [← htake, List.getElem?_take_of_lt hj, List.getElem?_take_of_lt (by split <;> omega)] at hswap

end MuMuDVB.FdTable
