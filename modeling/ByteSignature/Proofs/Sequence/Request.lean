import ByteSignature.Proofs.Sequence.Log
import Mathlib.Data.List.Forall2

/-!
# Requests to sequences and their copies

Sequences are made new, from items or as copies of others, and changed one at a time, in any
order.  The same requests can be put to logs: a copy then starts with the log of what it was
copied from, and from there on the two logs are apart.  Sequences and logs refuse the same
requests and give the same answers to all others, and at every time each sequence follows its
log.

Nothing here but the last section is about sequences: two ways of keeping lists that start
alike and stay alike under every change and copy are alike after all requests.
-/

namespace ByteSignature.Sequence

universe u

variable {α σ τ : Type u}

/-! ## Lists of related states -/

section Related

variable {related : σ → τ → Prop} {first : σ} {second : τ} {firsts : List σ} {seconds : List τ}

theorem forall₂_concat (alike : List.Forall₂ related firsts seconds)
    (last : related first second) :
    List.Forall₂ related (firsts ++ [first]) (seconds ++ [second]) :=
  List.rel_append alike (.cons last .nil)

theorem forall₂_set (alike : List.Forall₂ related firsts seconds) (next : related first second)
    (index : Nat) : List.Forall₂ related (firsts.set index first) (seconds.set index second) := by
  induction alike generalizing index with
  | nil => exact .nil
  | cons head tail ih =>
      cases index with
      | zero => exact .cons next tail
      | succ index => exact .cons head (ih index)

theorem rel_getElem? (alike : List.Forall₂ related firsts seconds) (index : Nat) :
    Option.Rel related firsts[index]? seconds[index]? := by
  induction alike generalizing index with
  | nil => exact .none
  | cons head tail ih =>
      cases index with
      | zero => exact .some head
      | succ index => exact ih index

theorem rel_bind {σ' τ' : Type u} {related' : σ' → τ' → Prop} {first? : Option σ}
    {second? : Option τ} {next : σ → Option σ'} {next' : τ → Option τ'}
    (alike : Option.Rel related first? second?)
    (step : ∀ first second, related first second →
      Option.Rel related' (next first) (next' second)) :
    Option.Rel related' (first? >>= next) (second? >>= next') := by
  cases alike with
  | none => exact .none
  | some alike => exact step _ _ alike

end Related

/-! ## Requests -/

/-- A request to lists that are numbered in the order in which they were made. -/
inductive Request (α : Type u) where
  | new
  | ofList (items : List α)
  | change (index : Nat) (change : Change α)
  | duplicate (index : Nat)

/-- A way of keeping lists: what a new list is and one made from items, what a list answers
when it is asked for a change and what it then is, and what its copy is. -/
structure Keeping (α σ : Type u) where
  new : σ
  ofList : List α → σ
  change? : σ → Change α → Option (Answer α × σ)
  duplicate : σ → σ

namespace Keeping

/-- What comes back from a request, and the lists behind it.  A list that was not made yet can
neither be changed nor copied. -/
def perform? (keeping : Keeping α σ) (lists : List σ) : Request α → Option (Answer α × List σ)
  | .new => some (.done, lists ++ [keeping.new])
  | .ofList items => some (.done, lists ++ [keeping.ofList items])
  | .change index change => do
      let list ← lists[index]?
      let (answer, next) ← keeping.change? list change
      return (answer, lists.set index next)
  | .duplicate index => do
      let list ← lists[index]?
      return (.done, lists ++ [keeping.duplicate list])

/-- The answers to requests one after the other, and the lists behind them. -/
def run? (keeping : Keeping α σ) (lists : List σ) :
    List (Request α) → Option (List (Answer α) × List σ)
  | [] => some ([], lists)
  | request :: requests => do
      let (answer, lists) ← keeping.perform? lists request
      let (answers, lists) ← keeping.run? lists requests
      return (answer :: answers, lists)

/-- Two ways of keeping lists start alike and stay alike under every change and copy. -/
structure Simulates (related : σ → τ → Prop) (keeping : Keeping α σ) (keeping' : Keeping α τ) :
    Prop where
  new : related keeping.new keeping'.new
  ofList : ∀ items, related (keeping.ofList items) (keeping'.ofList items)
  change? : ∀ {first second} change, related first second →
    Option.Rel (Agree related) (keeping.change? first change) (keeping'.change? second change)
  duplicate : ∀ {first second}, related first second →
    related (keeping.duplicate first) (keeping'.duplicate second)

namespace Simulates

variable {related : σ → τ → Prop} {keeping : Keeping α σ} {keeping' : Keeping α τ}
  {firsts : List σ} {seconds : List τ}

theorem perform? (simulates : Simulates related keeping keeping')
    (alike : List.Forall₂ related firsts seconds) (request : Request α) :
    Option.Rel (Agree (List.Forall₂ related)) (keeping.perform? firsts request)
      (keeping'.perform? seconds request) := by
  cases request with
  | new => exact .some ⟨rfl, forall₂_concat alike simulates.new⟩
  | ofList items => exact .some ⟨rfl, forall₂_concat alike (simulates.ofList items)⟩
  | change index change =>
      apply rel_bind (rel_getElem? alike index)
      intro first second rel
      apply rel_bind (simulates.change? change rel)
      rintro ⟨answer, next⟩ ⟨answer', next'⟩ ⟨rfl, rel⟩
      exact .some ⟨rfl, forall₂_set alike rel index⟩
  | duplicate index =>
      apply rel_bind (rel_getElem? alike index)
      intro first second rel
      exact .some ⟨rfl, forall₂_concat alike (simulates.duplicate rel)⟩

theorem run? (simulates : Simulates related keeping keeping')
    (alike : List.Forall₂ related firsts seconds) (requests : List (Request α)) :
    Option.Rel (Agree (List.Forall₂ related)) (keeping.run? firsts requests)
      (keeping'.run? seconds requests) := by
  induction requests generalizing firsts seconds with
  | nil => exact .some ⟨rfl, alike⟩
  | cons request requests ih =>
      apply rel_bind (simulates.perform? alike request)
      rintro ⟨answer, nexts⟩ ⟨answer', nexts'⟩ ⟨rfl, alike⟩
      apply rel_bind (ih alike)
      rintro ⟨answers, lasts⟩ ⟨answers', lasts'⟩ ⟨rfl, alike⟩
      exact .some ⟨rfl, alike⟩

end Simulates

end Keeping

/-! ## Sequences beside their logs -/

variable [BEq α]

/-- Lists are kept as sequences. -/
def sequences : Keeping α (Sequence α) where
  new := empty
  ofList := ofList
  change? := change?
  duplicate := duplicate

/-- Of lists only the logs are kept.  Making a list from items is appending them one by one. -/
def logs : Keeping α (List (Change α)) where
  new := []
  ofList items := items.map .push
  change? := record?
  duplicate log := log

theorem simulates_follows : Keeping.Simulates Follows (sequences (α := α)) logs where
  new := follows_empty
  ofList := follows_empty.extend
  change? change follows := follows.change? change
  duplicate {sequence _} follows := by
    change Follows sequence.duplicate _
    rwa [duplicate_eq]

/-- Whatever is asked of sequences and their copies, they refuse what logs refuse and answer
what logs answer, and every sequence follows its log.  The log of a copy goes back to what was
done to the original before it was copied, so what that held counts for the room of the copy. -/
theorem run?_follows (requests : List (Request α)) :
    Option.Rel (Agree (List.Forall₂ Follows)) (sequences.run? [] requests)
      (logs.run? [] requests) :=
  simulates_follows.run? .nil requests

/-- The copy of a list with room for sixteen items that was cleared has room for sixteen. -/
example :
    (sequences.run? [] [.ofList [9, 8, 7, 6, 5, 4, 3, 2, 1], .change 0 .clear, .duplicate 0,
        .change 0 (.push 1), .change 1 (.add 2), .change 1 (.add 2), .change 0 .pop]).map
      (fun (answers, lists) => (answers, lists.map fun list => (list.toList, list.capacity))) =
    some ([.done, .done, .done, .done, .added true, .added false, .item 1],
      [([], 16), ([2], 16)]) := by
  cbv

end ByteSignature.Sequence
