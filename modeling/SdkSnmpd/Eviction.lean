import SdkSnmpd.EventLoop

/-!
# The Client that Makes Room

A connection on a full list is meant to take the place of the oldest client. The scan of
`find_oldest_client` finds its position, and then the entry is read at the loop variable.

## Contents

- `IsFirstOldest`: the first of the oldest clients stands at an index.
- `oldestFrom_isFirstOldest`: the position found by the scan is this index.
- `oldest_not_replaced`: the client returned is never the one found, and a connection on a full
  list never replaces it.
-/

namespace SdkSnmpd

open Lib

/-- The client at `i` is older than those before it, and no younger than any other. -/
def IsFirstOldest (clients : List Record) (i : Nat) : Prop :=
  ∃ r, clients[i]? = some r ∧ (∀ r' ∈ clients, r.client.timestamp ≤ r'.client.timestamp) ∧
    ∀ j < i, ∀ r', clients[j]? = some r' → r.client.timestamp < r'.client.timestamp

/-- `find_oldest_client` returns the first of the oldest clients. -/
def FindsOldest (clients : List Record) : Prop :=
  ∃ i, findOldestClient clients = some i ∧ IsFirstOldest clients i

/-- The connection overwrites the first of the oldest clients, and nothing else. -/
def ReplacesOldest (clients : List Record) (heap : Heap) (connection : Connection) (now : Int) :
    Prop :=
  ∃ fd i r, connection.fd = some fd ∧ clients[i]? = some r ∧ IsFirstOldest clients i ∧
    handleTcpConnect clients heap connection now =
      .next (clients.set i ⟨r.address, connection.fill fd r.client.packet now⟩, heap)

/-! ## The scan -/

section

variable {r : Record} {clients : List Record}

/-- A client that is older than all the others is the first of the oldest. -/
theorem isFirstOldest_cons_zero
    (h : ∀ r' ∈ clients, r.client.timestamp ≤ r'.client.timestamp) :
    IsFirstOldest (r :: clients) 0 :=
  ⟨r, rfl, List.forall_mem_cons.mpr ⟨le_rfl, h⟩, fun _ hj => absurd hj (Nat.not_lt_zero _)⟩

/-- A younger client in front moves the index. -/
theorem IsFirstOldest.cons {i : Nat} (h : IsFirstOldest clients i)
    (hyoung : ∃ r' ∈ clients, r'.client.timestamp < r.client.timestamp) :
    IsFirstOldest (r :: clients) (i + 1) := by
  obtain ⟨oldest, hat, hmin, hfirst⟩ := h
  obtain ⟨r', hr', hlt⟩ := hyoung
  have hr : oldest.client.timestamp < r.client.timestamp := (hmin r' hr').trans_lt hlt
  refine ⟨oldest, hat, List.forall_mem_cons.mpr ⟨hr.le, hmin⟩, ?_⟩
  intro j hj r'' hr''
  cases j with
  | zero =>
    cases hr''
    exact hr
  | succ j => exact hfirst j (Nat.lt_of_succ_lt_succ hj) r'' hr''

/-- What the scan finds from a position on: the first of the oldest clients if one is older than
    the time it starts with, and what was found before otherwise. The induction is on the rest of
    the list. -/
theorem oldestFrom_cases (clients : List Record) (i : Nat) (timestamp pos : Int) :
    ((∀ r ∈ clients, timestamp ≤ r.client.timestamp) ∧
        (oldestFrom i timestamp pos clients).1 = pos) ∨
      ((∃ r ∈ clients, r.client.timestamp < timestamp) ∧
        ∃ k : Nat, (oldestFrom i timestamp pos clients).1 = i + k ∧ IsFirstOldest clients k) := by
  induction clients generalizing i timestamp pos with
  | nil => exact .inl ⟨fun _ h => absurd h List.not_mem_nil, rfl⟩
  | cons r rest ih =>
    rw [oldestFrom]
    split
    · -- the entry is older than all before it, and the scan goes on with its time
      rename_i hlt
      right
      refine ⟨⟨r, List.mem_cons_self, hlt⟩, ?_⟩
      rcases ih (i + 1) r.client.timestamp i with ⟨hall, heq⟩ | ⟨holder, k, heq, hk⟩
      · exact ⟨0, by rw [heq, Nat.cast_zero, Int.add_zero], isFirstOldest_cons_zero hall⟩
      · refine ⟨k + 1, ?_, hk.cons holder⟩
        rw [heq]
        omega
    · -- an entry of the same time does not count: the first of them stays
      rename_i hge
      have hr : timestamp ≤ r.client.timestamp := Int.not_lt.mp hge
      rcases ih (i + 1) timestamp pos with ⟨hall, heq⟩ | ⟨⟨r', hr', hlt⟩, k, heq, hk⟩
      · exact .inl ⟨List.forall_mem_cons.mpr ⟨hr, hall⟩, heq⟩
      · right
        refine ⟨⟨r', List.mem_cons_of_mem r hr', hlt⟩, k + 1, ?_, ?_⟩
        · rw [heq]
          omega
        · exact hk.cons ⟨r', hr', hlt.trans_le hr⟩

end

/-- The position found is the one of the first of the oldest clients. -/
theorem oldestFrom_isFirstOldest {clients : List Record}
    (h : ∃ r ∈ clients, r.client.timestamp < longMax) :
    ∃ k : Nat, (oldestFrom 0 longMax (-1) clients).1 = k ∧ IsFirstOldest clients k := by
  obtain ⟨r, hr, hlt⟩ := h
  rcases oldestFrom_cases clients 0 longMax (-1) with ⟨hall, -⟩ | ⟨-, k, heq, hk⟩
  · exact absurd hlt (Int.not_lt.mpr (hall r hr))
  · exact ⟨k, by simpa using heq, hk⟩

/-! ## The client returned -/

theorem IsFirstOldest.lt_length {clients : List Record} {i : Nat} (h : IsFirstOldest clients i) :
    i < clients.length := by
  obtain ⟨r, hr, -⟩ := h
  exact (List.getElem?_eq_some_iff.mp hr).1

/-- The entry returned stands behind the list. -/
theorem not_findsOldest (clients : List Record) : ¬ FindsOldest clients := by
  rintro ⟨i, hfound, holdest⟩
  have hlt := holdest.lt_length
  rw [findOldestClient_eq] at hfound
  split at hfound
  · cases hfound
    exact absurd hlt (Nat.lt_irrefl _)
  · cases hfound

/-- **No eviction.** Whatever the list, the client returned is not the first of the oldest, and a
    connection that is accepted on a full list does not replace this one. -/
theorem oldest_not_replaced (clients : List Record) :
    ¬ FindsOldest clients ∧ ∀ heap connection now fd, connection.fd = some fd → fd < fdSetsize →
      maxNrClients ≤ clients.length → ¬ ReplacesOldest clients heap connection now := by
  refine ⟨not_findsOldest clients, ?_⟩
  rintro heap connection now fd hfd hsmall hfull ⟨fd', i, r, -, -, -, heq⟩
  rw [handleTcpConnect, hfd] at heq
  dsimp only at heq
  rw [if_neg (by omega), if_pos hfull, findOldestClient_eq] at heq
  by_cases hold : ∃ r ∈ clients, r.client.timestamp < longMax
  · simp only [if_pos hold, List.getElem?_length] at heq
    cases heq
  · simp only [if_neg hold] at heq
    cases heq

/-- A list of 16 clients, the first of them the oldest. -/
def fullList : List Record :=
  (List.range maxNrClients).map fun n =>
    ⟨n, ⟨1000 + n, 10 + n, 0, 0, fun _ => 0, 0, false⟩⟩

/-- A connection with descriptor 30. -/
def thirtieth : Connection := ⟨some 30, 0, 0, none⟩

theorem oldest_not_replaced_fullList :
    ¬ FindsOldest fullList ∧ ¬ ReplacesOldest fullList .empty thirtieth 2000 :=
  ⟨(oldest_not_replaced fullList).1,
    (oldest_not_replaced fullList).2 .empty thirtieth 2000 30 rfl (by decide) (by decide)⟩

/-- The oldest of the 16 clients is the first one, and the seventeenth entry is read. -/
theorem fullList_not_findsOldest :
    findOldestClient fullList = some 16 ∧ ¬ FindsOldest fullList ∧
      handleTcpConnect fullList .empty thirtieth 2000 = .undefined :=
  ⟨by decide, not_findsOldest fullList, by rfl⟩

end SdkSnmpd
