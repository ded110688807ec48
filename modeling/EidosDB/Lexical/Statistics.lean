import EidosDB.Lexical.InMemory
import EidosDB.Lib.Fold

/-! # The Statistics of the In-Memory Index

    After any run the statistics are those of the stored documents: each term
    has the number of documents that hold it, and the total is the sum of
    their lengths.  A removal takes away what the insert had added, so no
    subtraction underflows, and the state of an index is a function of the
    documents it stores, whatever its history. -/

namespace EidosDB

open Fold

theorem checkedAdd_eq_some {max a b c : Nat} :
    checkedAdd max a b = some c ↔ a + b ≤ max ∧ c = a + b := by
  unfold checkedAdd
  split <;> simp [*, eq_comm]

theorem checkedSub_of_le {a b : Nat} (h : b ≤ a) : checkedSub a b = some (a - b) := if_pos h

/-! ## One document -/

/-- The number of tokens of a document. -/
def Document.tokenCount (U : Unicode) (document : Document) : Nat :=
  (tokenize U document.text).length

/-- The counters hold a document, beside the tokens of the others. -/
def countersHold (U : Unicode) (others : Nat) (document : Document) : Bool :=
  decide (document.tokenCount U ≤ u32Max ∧ others + document.tokenCount U ≤ u64Max)

namespace DocStats

/-- The length of a document is the sum of the counts of its terms. -/
def Summed (stats : DocStats) : Prop :=
  stats.length = (stats.termFrequencies.entries.map Prod.snd).sum

theorem summed_countToken {stats stats' : DocStats} {token : String} (h : stats.Summed)
    (hcount : stats.countToken token = some stats') : stats'.Summed := by
  obtain ⟨frequency, hfreq, hcount⟩ := Option.bind_eq_some_iff.mp hcount
  obtain ⟨length, hlen, hcount⟩ := Option.bind_eq_some_iff.mp hcount
  obtain ⟨-, rfl⟩ := checkedAdd_eq_some.mp hfreq
  obtain ⟨-, rfl⟩ := checkedAdd_eq_some.mp hlen
  cases hcount
  unfold Summed at h ⊢
  dsimp only
  rw [((stats.termFrequencies.perm_insert token _).map Prod.snd).sum_eq, List.map_cons,
    List.sum_cons, h]
  -- what the token's count adds to the terms other than it
  cases hget : stats.termFrequencies.get token with
  | none =>
    rw [stats.termFrequencies.erase_of_none hget, Option.getD_none]
    omega
  | some n =>
    rw [((stats.termFrequencies.perm_erase hget).map Prod.snd).sum_eq, List.map_cons,
      List.sum_cons, Option.getD_some]
    omega

theorem summed_ofDocument {U : Unicode} {document : Document} {stats : DocStats}
    (h : ofDocument U document = some stats) : stats.Summed := by
  apply foldlM_induct (motive := Summed) _ _ h
  · intro s a _ s' hs hcount
    exact summed_countToken hs hcount
  · rfl

theorem Summed.frequency_le {stats : DocStats} (h : stats.Summed) (token : String) :
    (stats.termFrequencies.get token).getD 0 ≤ stats.length := by
  cases hget : stats.termFrequencies.get token with
  | none => exact Nat.zero_le _
  | some n =>
    rw [h]
    have hmem := (stats.termFrequencies.mem_entries_iff token n).mpr hget
    exact List.single_le_sum (fun _ _ => Nat.zero_le _) n (List.mem_map_of_mem hmem)

/-- A token is counted unless the length of the document overflows. -/
theorem countToken_isSome {stats : DocStats} (h : stats.Summed) (token : String) :
    (stats.countToken token).isSome = true ↔ stats.length + 1 ≤ u32Max := by
  have hle := h.frequency_le token
  unfold countToken checkedAdd
  by_cases hlen : stats.length + 1 ≤ u32Max
  · rw [if_pos (by omega), if_pos hlen]
    simp [hlen]
  · rw [if_neg hlen]
    split <;> simp [hlen]

theorem length_countToken {stats stats' : DocStats} {token : String}
    (hcount : stats.countToken token = some stats') : stats'.length = stats.length + 1 := by
  obtain ⟨frequency, -, hcount⟩ := Option.bind_eq_some_iff.mp hcount
  obtain ⟨length, hlen, hcount⟩ := Option.bind_eq_some_iff.mp hcount
  cases hcount
  exact (checkedAdd_eq_some.mp hlen).2

theorem foldlM_countToken {stats : DocStats} (h : stats.Summed) (tokens : List String)
    (hstart : stats.length ≤ u32Max) :
    (stats.length + tokens.length ≤ u32Max →
      ∃ stats', tokens.foldlM countToken stats = some stats' ∧
        stats'.length = stats.length + tokens.length) ∧
    (u32Max < stats.length + tokens.length → tokens.foldlM countToken stats = none) := by
  induction tokens generalizing stats with
  | nil =>
    refine ⟨fun _ => ⟨stats, rfl, rfl⟩, fun hlt => ?_⟩
    rw [List.length_nil] at hlt
    omega
  | cons token tokens ih =>
    rw [List.length_cons, List.foldlM_cons]
    cases hcount : stats.countToken token with
    | none =>
      have hlen : ¬ stats.length + 1 ≤ u32Max := by
        rw [← countToken_isSome h token, hcount]
        simp
      exact ⟨fun hle => absurd hle (by omega), fun _ => rfl⟩
    | some stats' =>
      have hlen := length_countToken hcount
      have hsome : stats.length + 1 ≤ u32Max := by
        rw [← countToken_isSome h token, hcount]
        rfl
      obtain ⟨hfits, hover⟩ := ih (summed_countToken h hcount) (by omega)
      refine ⟨fun hle => ?_, fun hlt => hover (by omega)⟩
      obtain ⟨s', hs', hlen'⟩ := hfits (by omega)
      exact ⟨s', hs', by omega⟩

/-- A document is counted unless it has too many tokens. -/
theorem ofDocument_cases (U : Unicode) (document : Document) :
    (document.tokenCount U ≤ u32Max ∧ ∃ stats, ofDocument U document = some stats ∧
      stats.length = document.tokenCount U) ∨
    (u32Max < document.tokenCount U ∧ ofDocument U document = none) := by
  have hempty : empty.Summed := rfl
  obtain ⟨hfits, hover⟩ := foldlM_countToken hempty (tokenize U document.text) (Nat.zero_le _)
  have hzero : empty.length + (tokenize U document.text).length = document.tokenCount U :=
    Nat.zero_add _
  rw [hzero] at hfits hover
  rcases Nat.lt_or_ge u32Max (document.tokenCount U) with hlt | hle
  · exact Or.inr ⟨hlt, hover hlt⟩
  · exact Or.inl ⟨hle, hfits hle⟩

end DocStats

/-! ## The invariant -/

/-- The number of documents that hold a term. -/
def documentsWith (docs : OrderedTable VectorId DocStats) (term : String) : Nat :=
  docs.entries.countP fun p => (p.2.termFrequencies.get term).isSome

/-- The number of tokens of all documents. -/
def tokensOf (docs : OrderedTable VectorId DocStats) : Nat :=
  (docs.entries.map fun p => p.2.length).sum

/-- A count that is not stored when it is zero. -/
def positive (n : Nat) : Option Nat := if n = 0 then none else some n

section Documents

variable {docs : OrderedTable VectorId DocStats} {id : VectorId} {stats : DocStats}

theorem documentsWith_erase (h : docs.get id = some stats) (term : String) :
    documentsWith docs term = documentsWith (docs.erase id) term +
      if (stats.termFrequencies.get term).isSome then 1 else 0 := by
  unfold documentsWith
  rw [(docs.perm_erase h).countP_eq, List.countP_cons]

theorem documentsWith_insert (h : docs.get id = none) (term : String) :
    documentsWith (docs.insert id stats) term = documentsWith docs term +
      if (stats.termFrequencies.get term).isSome then 1 else 0 := by
  have herase := documentsWith_erase (docs.get_insert_self id stats) term
  rwa [docs.erase_insert, docs.erase_of_none h] at herase

theorem tokensOf_erase (h : docs.get id = some stats) :
    tokensOf docs = stats.length + tokensOf (docs.erase id) := by
  unfold tokensOf
  rw [((docs.perm_erase h).map _).sum_eq, List.map_cons, List.sum_cons]

theorem tokensOf_insert (h : docs.get id = none) :
    tokensOf (docs.insert id stats) = stats.length + tokensOf docs := by
  have herase := tokensOf_erase (docs.get_insert_self id stats)
  rwa [docs.erase_insert, docs.erase_of_none h] at herase

end Documents

namespace InMemoryLexicalIndex

/-- The statistics are those of the documents. -/
structure Inv (s : InMemoryLexicalIndex) : Prop where
  docFrequencies : ∀ term, s.docFrequencies.get term = positive (documentsWith s.docs term)
  totalTokens : s.totalTokens = tokensOf s.docs
  lengths : ∀ id stats, s.docs.get id = some stats → stats.Summed

theorem inv_new : new.Inv where
  docFrequencies _ := rfl
  totalTokens := rfl
  lengths _ _ h := by simp [new] at h

/-! ## Forgetting a document -/

/-- One document less with a term. -/
def lessOne : Option Nat → Option Nat
  | some (n + 2) => some (n + 1)
  | _ => none

/-- One document more with a term. -/
def moreOne (count : Option Nat) : Option Nat := some (count.getD 0 + 1)

theorem lessOne_positive (n : Nat) : lessOne (positive (n + 1)) = positive n := by
  cases n <;> rfl

theorem moreOne_positive (n : Nat) : moreOne (positive n) = positive (n + 1) := by
  cases n <;> rfl

theorem releaseTerm_eq {t : OrderedTable String Nat} {term : String}
    (h : t.get term ≠ some 0) : releaseTerm t term = some (t.alter term lessOne) := by
  unfold releaseTerm OrderedTable.alter
  cases hget : t.get term with
  | none =>
    rw [show lessOne none = none from rfl]
    exact congrArg some (t.erase_of_none hget).symm
  | some count =>
    match count with
    | 0 => exact absurd hget h
    | 1 => rfl
    | n + 2 => rfl

/-- Releasing distinct terms that have documents does not underflow. -/
theorem releaseTerms_eq {t : OrderedTable String Nat} {terms : List String}
    (hnodup : terms.Nodup) (h : ∀ term ∈ terms, t.get term ≠ some 0) :
    terms.foldlM releaseTerm t = some (t.alterMany terms lessOne) := by
  induction terms generalizing t with
  | nil => rfl
  | cons a terms ih =>
    obtain ⟨hnot, hnodup⟩ := List.nodup_cons.mp hnodup
    rw [foldlM_cons_eq_some]
    refine ⟨_, releaseTerm_eq (h a List.mem_cons_self), ih hnodup ?_⟩
    intro term hterm
    have hne : term ≠ a := fun heq => hnot (heq ▸ hterm)
    rw [OrderedTable.get_alter, if_neg hne]
    exact h term (List.mem_cons_of_mem _ hterm)

theorem addTerms_eq (t : OrderedTable String Nat) (terms : List String) :
    terms.foldl addTerm t = t.alterMany terms moreOne := rfl

/-- `forget` never underflows, and leaves the statistics of the documents
    left. -/
theorem forget_spec {s : InMemoryLexicalIndex} (h : s.Inv) (order : HashOrder) (id : VectorId) :
    ∃ s', s.forget order id = some s' ∧ s'.docs = s.docs.erase id ∧ s'.Inv := by
  unfold forget
  cases hget : s.docs.get id with
  | none => exact ⟨s, rfl, (s.docs.erase_of_none hget).symm, h⟩
  | some stats =>
    have hterms : ∀ term ∈ order.keys stats.termFrequencies, s.docFrequencies.get term ≠ some 0 := by
      intro term _
      rw [h.docFrequencies]
      unfold positive
      split <;> simp [*]
    have htokens := tokensOf_erase hget
    have hle : stats.length ≤ s.totalTokens := by
      rw [h.totalTokens]
      omega
    dsimp only
    rw [releaseTerms_eq (order.nodup_keys _) hterms, Option.bind_eq_bind, Option.bind_some,
      checkedSub_of_le hle]
    refine ⟨_, rfl, rfl, ?_, ?_, ?_⟩
    · intro term
      simp only [OrderedTable.get_alterMany _ (order.nodup_keys _), order.mem_keys_iff,
        h.docFrequencies, documentsWith_erase hget]
      split
      · exact lessOne_positive _
      · rfl
    · dsimp only
      rw [h.totalTokens]
      omega
    · intro id' stats' hget'
      rw [OrderedTable.get_erase] at hget'
      split at hget'
      · simp at hget'
      · exact h.lengths id' stats' hget'

/-- What an insert that succeeds does to the documents. -/
theorem insert_spec {U : Unicode} {s s' : InMemoryLexicalIndex} (h : s.Inv)
    {before after : HashOrder} {id : VectorId} {document : Document}
    (hinsert : s.insert U before after id document = some s') :
    ∃ stats, DocStats.ofDocument U document = some stats ∧
      s'.docs = (s.docs.erase id).insert id stats ∧ s'.Inv := by
  obtain ⟨kept, hforget, hdocs, hkept⟩ := forget_spec h before id
  unfold insert at hinsert
  rw [hforget, Option.bind_eq_bind, Option.bind_some] at hinsert
  obtain ⟨stats, hstats, hinsert⟩ := Option.bind_eq_some_iff.mp hinsert
  obtain ⟨total, htotal, hinsert⟩ := Option.bind_eq_some_iff.mp hinsert
  obtain ⟨-, rfl⟩ := checkedAdd_eq_some.mp htotal
  cases hinsert
  have hnone : kept.docs.get id = none := by rw [hdocs, OrderedTable.get_erase, if_pos rfl]
  refine ⟨stats, hstats, by rw [hdocs], ?_, ?_, ?_⟩
  · intro term
    dsimp only
    simp only [addTerms_eq, OrderedTable.get_alterMany _ (after.nodup_keys _), after.mem_keys_iff,
      hkept.docFrequencies, documentsWith_insert hnone]
    split
    · exact moreOne_positive _
    · rfl
  · dsimp only
    rw [hkept.totalTokens, tokensOf_insert hnone, Nat.add_comm]
  · intro id' stats' hget'
    dsimp only at hget'
    rw [OrderedTable.get_insert] at hget'
    split at hget'
    · cases hget'
      exact DocStats.summed_ofDocument hstats
    · exact hkept.lengths id' stats' hget'

/-- An insert succeeds when the counters hold the document. -/
theorem insert_isSome {U : Unicode} {s : InMemoryLexicalIndex} (h : s.Inv)
    (before after : HashOrder) (id : VectorId) (document : Document) :
    (s.insert U before after id document).isSome =
      countersHold U (tokensOf (s.docs.erase id)) document := by
  obtain ⟨kept, hforget, hdocs, hkept⟩ := forget_spec h before id
  unfold insert countersHold
  rw [hforget, Option.bind_eq_bind, Option.bind_some]
  rcases DocStats.ofDocument_cases U document with ⟨hle, stats, hstats, hlen⟩ | ⟨hlt, hnone⟩
  · rw [hstats, Option.bind_eq_bind, Option.bind_some, hkept.totalTokens, hdocs, hlen]
    unfold checkedAdd
    by_cases htotal : tokensOf (s.docs.erase id) + document.tokenCount U ≤ u64Max
    · simp [htotal, hle]
    · simp [htotal]
  · rw [hnone]
    simp [not_le_of_gt hlt]

/-- Indexes with the same documents and their statistics are the same. -/
theorem eq_of_docs {s s' : InMemoryLexicalIndex} (h : s.Inv) (h' : s'.Inv)
    (hdocs : s.docs = s'.docs) : s = s' := by
  have hfreq : s.docFrequencies = s'.docFrequencies := by
    apply OrderedTable.ext_get
    intro term
    rw [h.docFrequencies, h'.docFrequencies, hdocs]
  have htotal : s.totalTokens = s'.totalTokens := by
    rw [h.totalTokens, h'.totalTokens, hdocs]
  cases s
  cases s'
  simp_all

/-! ## Runs -/

/-- The index stores these documents and keeps their statistics. -/
structure Holds (U : Unicode) (documents : VectorId → Option Document)
    (s : InMemoryLexicalIndex) : Prop where
  inv : s.Inv
  stored : ∀ id, (documents id).map (DocStats.ofDocument U) = (s.docs.get id).map some

theorem holds_new (U : Unicode) : new.Holds U (fun _ => none) where
  inv := inv_new
  stored _ := rfl

variable {U : Unicode} {docs : VectorId → Option Document} {s s' : InMemoryLexicalIndex}

theorem Holds.insert (h : s.Holds U docs) {before after : HashOrder} {id : VectorId}
    {document : Document} (hinsert : s.insert U before after id document = some s') :
    s'.Holds U (Function.update docs id (some document)) := by
  obtain ⟨stats, hstats, hdocs, hinv⟩ := insert_spec h.inv hinsert
  refine ⟨hinv, fun id' => ?_⟩
  rw [hdocs, OrderedTable.get_insert, OrderedTable.get_erase, Function.update_apply]
  by_cases hid : id' = id
  · rw [if_pos hid, if_pos hid, Option.map_some, Option.map_some, hstats]
  · rw [if_neg hid, if_neg hid, if_neg hid]
    exact h.stored id'

theorem Holds.remove (h : s.Holds U docs) {order : HashOrder} {id : VectorId}
    (hremove : s.remove order id = some s') : s'.Holds U (Function.update docs id none) := by
  obtain ⟨s₁, hforget, hdocs, hinv⟩ := forget_spec h.inv order id
  rw [InMemoryLexicalIndex.remove, hforget] at hremove
  cases hremove
  refine ⟨hinv, fun id' => ?_⟩
  rw [hdocs, OrderedTable.get_erase, Function.update_apply]
  by_cases hid : id' = id
  · rw [if_pos hid, if_pos hid]
    rfl
  · rw [if_neg hid, if_neg hid]
    exact h.stored id'

theorem Holds.step (h : s.Holds U docs) {op : Op} (hstep : s.step U op = some s') :
    s'.Holds U (op.apply docs) := by
  cases op with
  | insert before after id document => exact h.insert hstep
  | remove order id => exact h.remove hstep

theorem Holds.run {ops : List Op} (h : s.Holds U docs) (hrun : s.run U ops = some s') :
    s'.Holds U (ops.foldl Op.apply docs) := by
  induction ops generalizing s docs with
  | nil =>
    cases hrun
    exact h
  | cons op ops ih =>
    obtain ⟨s₁, hone, hrest⟩ := foldlM_cons_eq_some.mp hrun
    exact ih (h.step hone) hrest

/-- An index is determined by its documents. -/
theorem Holds.unique (h : s.Holds U docs) (h' : s'.Holds U docs) : s = s' := by
  apply eq_of_docs h.inv h'.inv
  apply OrderedTable.ext_get
  intro id
  have hsame := (h.stored id).symm.trans (h'.stored id)
  cases hget : s.docs.get id <;> cases hget' : s'.docs.get id <;> simp_all

/-! ## Searches -/

/-- The order of the iteration over the documents does not show. -/
theorem searchTextFiltered_order (ops : F64Ops) (order order' : HashOrder)
    (s : InMemoryLexicalIndex) (query : String) (k : Nat) (isAdmissible : VectorId → Bool) :
    s.searchTextFiltered U ops order query k isAdmissible =
      s.searchTextFiltered U ops order' query k isAdmissible := by
  unfold searchTextFiltered
  split
  · rfl
  · have hperm := (order.perm s.docs).trans (order'.perm s.docs).symm
    exact ranked_of_perm ((hperm.filter _).filterMap _)

/-- **The statistics are exact.**  In every state a run reaches, the
    frequencies and the total are those of the stored documents and
    forgetting a document does not underflow; and a run that ends with the
    same documents answers every search alike, whatever came before and in
    whatever order the hash maps are read. -/
theorem run_statistics {ops : List Op} (hrun : new.run U ops = some s) :
    s.Inv ∧ (∀ order id, (s.forget order id).isSome = true) ∧
      ∀ ops' s', new.run U ops' = some s' → documents ops = documents ops' →
        ∀ (arith : F64Ops) (order order' : HashOrder) (query : String) (k : Nat)
          (isAdmissible : VectorId → Bool),
          s.searchTextFiltered U arith order query k isAdmissible =
            s'.searchTextFiltered U arith order' query k isAdmissible := by
  have hholds : s.Holds U (documents ops) := (holds_new U).run hrun
  refine ⟨hholds.inv, ?_, ?_⟩
  · intro order id
    obtain ⟨s₁, hforget, -⟩ := forget_spec hholds.inv order id
    rw [hforget]
    rfl
  · intro ops' s' hrun' hsame arith order order' query k isAdmissible
    have hholds' : s'.Holds U (documents ops') := (holds_new U).run hrun'
    rw [← hsame] at hholds'
    obtain rfl := hholds.unique hholds'
    exact searchTextFiltered_order arith order order' s query k isAdmissible

/-- The text "a b a". -/
def abaDocument : Document := ⟨"a b a", by decide +kernel⟩

/-- The text "b". -/
def bDocument : Document := ⟨"b", by decide +kernel⟩

/-- A document replaced by a shorter one, and another one removed. -/
def replacingRun : List Op :=
  [.insert .ascending .descending ⟨1⟩ abaDocument, .insert .ascending .ascending ⟨2⟩ bDocument,
    .insert .descending .ascending ⟨1⟩ bDocument, .remove .descending ⟨2⟩]

/-- What `replacingRun` ends with. -/
def replacingRunEnd : InMemoryLexicalIndex where
  docs := .ofList [(⟨1⟩, { termFrequencies := .ofList [("b", 1)], length := 1 })]
  docFrequencies := .ofList [("b", 1)]
  totalTokens := 1

theorem run_statistics_replacingRun :
    new.run .ascii replacingRun = some replacingRunEnd ∧ replacingRunEnd.Inv :=
  have hrun : new.run .ascii replacingRun = some replacingRunEnd := by decide +kernel
  ⟨hrun, (run_statistics hrun).1⟩

end InMemoryLexicalIndex

end EidosDB
