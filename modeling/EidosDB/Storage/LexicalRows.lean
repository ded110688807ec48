import EidosDB.Lexical.Statistics
import EidosDB.Storage.PersistentLexical

/-! # The Rows of the Persistent Lexical Index

    `RowsOf` says that the three tables are those of a set of documents: the
    list of a term has exactly the documents that hold it, each once, with
    its frequency.  The transactions of `insert` and `remove` keep it, and
    their deltas are what the counters of the documents change by. -/

namespace EidosDB

open Bytes

namespace LexicalDb

variable {codecs : LexicalCodecs}

/-! ## Posting lists -/

/-- The row of a list; the empty list has none. -/
def rowOf (codecs : LexicalCodecs) (list : List (VectorId × Nat)) : Option (List Byte) :=
  if list.isEmpty then none else some (codecs.postings.encode list)

/-- The table holds these lists. -/
def Lists (codecs : LexicalCodecs) (postings : OrderedTable String (List Byte))
    (view : String → List (VectorId × Nat)) : Prop :=
  ∀ term, postings.get term = rowOf codecs (view term)

section Lists

variable {postings : OrderedTable String (List Byte)} {view : String → List (VectorId × Nat)}

theorem Lists.postingList (h : Lists codecs postings view) (term : String) :
    postingList codecs postings term = .ok (view term) := by
  unfold LexicalDb.postingList
  rw [h term, rowOf]
  cases hview : view term with
  | nil => rfl
  | cons p rest => exact codecs.postings.parse_encode _

/-- A table with the list of one term replaced. -/
theorem Lists.replace (h : Lists codecs postings view) (term : String)
    (list : List (VectorId × Nat)) :
    Lists codecs (if list.isEmpty then postings.erase term
      else postings.insert term (codecs.postings.encode list)) (Function.update view term list) := by
  intro term'
  rw [Function.update_apply]
  unfold rowOf
  by_cases hempty : list.isEmpty = true
  · rw [if_pos hempty, OrderedTable.get_erase]
    by_cases hterm : term' = term
    · rw [if_pos hterm, if_pos hterm, if_pos hempty]
    · rw [if_neg hterm, if_neg hterm, h term', rowOf]
  · rw [if_neg hempty, OrderedTable.get_insert]
    by_cases hterm : term' = term
    · rw [if_pos hterm, if_pos hterm, if_neg hempty]
    · rw [if_neg hterm, if_neg hterm, h term', rowOf]

theorem dropPosting_spec (h : Lists codecs postings view) (id : VectorId) (term : String) :
    ∃ postings', dropPosting codecs id postings term = .ok postings' ∧
      Lists codecs postings'
        (Function.update view term ((view term).filter fun p => decide (p.1 ≠ id))) := by
  unfold dropPosting
  rw [h.postingList]
  exact ⟨_, rfl, h.replace term _⟩

/-- Forgetting takes the document out of the list of each of its terms. -/
theorem dropPostings_spec (h : Lists codecs postings view) (id : VectorId)
    (terms : List String) :
    ∃ postings', terms.foldlM (dropPosting codecs id) postings = .ok postings' ∧
      Lists codecs postings' (fun term =>
        if term ∈ terms then (view term).filter fun p => decide (p.1 ≠ id) else view term) := by
  induction terms generalizing postings view with
  | nil => exact ⟨postings, rfl, by simpa using h⟩
  | cons a rest ih =>
    obtain ⟨postings₁, hone, hlists⟩ := dropPosting_spec h id a
    obtain ⟨postings', hrest, hlists'⟩ := ih hlists
    refine ⟨postings', ?_, ?_⟩
    · rw [List.foldlM_cons, hone]
      exact hrest
    · convert hlists' using 1
      funext term
      by_cases hterm : term = a
      · subst hterm
        simp [List.filter_filter]
      · simp [hterm]

theorem addPosting_spec (h : Lists codecs postings view) (id : VectorId) (term : String × Nat) :
    ∃ postings', addPosting codecs id postings term = .ok postings' ∧
      Lists codecs postings' (Function.update view term.1 (view term.1 ++ [(id, term.2)])) := by
  unfold addPosting
  rw [h.postingList]
  refine ⟨_, rfl, ?_⟩
  have hreplace := h.replace term.1 (view term.1 ++ [(id, term.2)])
  rwa [if_neg (by simp)] at hreplace

/-- Inserting appends the document to the list of each of its terms. -/
theorem addPostings_spec (h : Lists codecs postings view) (id : VectorId)
    (terms : List (String × Nat)) :
    ∃ postings', terms.foldlM (addPosting codecs id) postings = .ok postings' ∧
      Lists codecs postings' (fun term => view term ++
        (terms.filter fun p => decide (p.1 = term)).map fun p => (id, p.2)) := by
  induction terms generalizing postings view with
  | nil => exact ⟨postings, rfl, by simpa using h⟩
  | cons a rest ih =>
    obtain ⟨postings₁, hone, hlists⟩ := addPosting_spec h id a
    obtain ⟨postings', hrest, hlists'⟩ := ih hlists
    refine ⟨postings', ?_, ?_⟩
    · rw [List.foldlM_cons, hone]
      exact hrest
    · convert hlists' using 1
      funext term
      by_cases hterm : a.1 = term
      · subst hterm
        simp
      · simp [hterm, Ne.symm hterm]

end Lists

/-! ## The rows of a set of documents -/

/-- The lists are those of the documents. -/
structure PostingsOf (docs : OrderedTable VectorId DocStats)
    (view : String → List (VectorId × Nat)) : Prop where
  nodup : ∀ term, ((view term).map Prod.fst).Nodup
  mem : ∀ term id frequency, (id, frequency) ∈ view term ↔
    ∃ stats, docs.get id = some stats ∧ stats.termFrequencies.get term = some frequency

/-- The term list is that of a document. -/
def TermsOf (stats : DocStats) (terms : List String) : Prop :=
  ∀ term, term ∈ terms ↔ (stats.termFrequencies.get term).isSome = true

/-- The tables are those of the documents. -/
structure RowsOf (codecs : LexicalCodecs) (db : LexicalDb)
    (docs : OrderedTable VectorId DocStats) : Prop where
  lengths : db.docLengths = docs.mapValues fun stats => codecs.length.encode stats.length
  absent : ∀ id, docs.get id = none → db.docTerms.get id = none
  terms : ∀ id stats, docs.get id = some stats →
    ∃ terms, db.docTerms.get id = some (codecs.terms.encode terms) ∧ TermsOf stats terms
  postings : ∃ view, Lists codecs db.postings view ∧ PostingsOf docs view

section Rows

variable {docs : OrderedTable VectorId DocStats} {view : String → List (VectorId × Nat)}
  {db : LexicalDb} {stats : DocStats} {id : VectorId}

theorem rowsOf_fresh (codecs : LexicalCodecs) : RowsOf codecs fresh .empty where
  lengths := OrderedTable.ext_get fun id => rfl
  absent _ _ := rfl
  terms _ _ hget := by simp at hget
  postings := ⟨fun _ => [], fun _ => rfl, fun _ => List.nodup_nil, by simp⟩

/-- The length of a list is the number of documents that hold the term. -/
theorem PostingsOf.length_eq (h : PostingsOf docs view) (term : String) :
    (view term).length = documentsWith docs term := by
  have hperm : ((view term).map Prod.fst).Perm
      ((docs.entries.filter fun p => (p.2.termFrequencies.get term).isSome).map Prod.fst) := by
    have hnodup := docs.nodup_keys.sublist
      ((List.filter_sublist (p := fun p => (p.2.termFrequencies.get term).isSome)).map Prod.fst)
    apply (List.perm_ext_iff_of_nodup (h.nodup term) hnodup).mpr
    intro id
    simp only [List.mem_map, List.mem_filter, Prod.exists, exists_and_right, exists_eq_right,
      h.mem, docs.mem_entries_iff, Option.isSome_iff_exists]
    constructor
    · rintro ⟨f, stats, hget, hf⟩
      exact ⟨stats, hget, f, hf⟩
    · rintro ⟨stats, hget, f, hf⟩
      exact ⟨f, stats, hget, hf⟩
  have hlen := hperm.length_eq
  rwa [List.length_map, List.length_map, ← List.countP_eq_length_filter] at hlen

/-- The lists after a document is taken out of those of its terms. -/
theorem PostingsOf.erase (h : PostingsOf docs view) (hget : docs.get id = some stats)
    {terms : List String} (hterms : TermsOf stats terms) :
    PostingsOf (docs.erase id) fun term =>
      if term ∈ terms then (view term).filter fun p => decide (p.1 ≠ id) else view term where
  nodup term := by
    split
    · exact (h.nodup term).sublist (List.filter_sublist.map _)
    · exact h.nodup term
  mem term id' frequency := by
    have hmem : (id', frequency) ∈ (if term ∈ terms
        then (view term).filter fun p => decide (p.1 ≠ id) else view term) ↔
        (id', frequency) ∈ view term ∧ id' ≠ id := by
      split
      · rw [List.mem_filter, decide_eq_true_eq]
      · next hnot =>
        refine ⟨fun hin => ⟨hin, ?_⟩, And.left⟩
        rintro rfl
        obtain ⟨stats', hget', hf⟩ := (h.mem term id' frequency).mp hin
        rw [hget] at hget'
        cases hget'
        rw [hterms, hf] at hnot
        exact hnot rfl
    rw [hmem, h.mem, OrderedTable.get_erase]
    by_cases hid : id' = id
    · simp [hid]
    · simp [hid]

/-- The lists after a new document is appended to those of its terms. -/
theorem PostingsOf.insert (h : PostingsOf docs view) (hget : docs.get id = none)
    (order : HashOrder) : PostingsOf (docs.insert id stats) fun term => view term ++
      ((order.entries stats.termFrequencies).filter fun p => decide (p.1 = term)).map
        fun p => (id, p.2) where
  nodup term := by
    rw [order.filter_key]
    have hnot : id ∉ (view term).map Prod.fst := by
      intro hin
      obtain ⟨⟨_, f⟩, hp, rfl⟩ := List.mem_map.mp hin
      obtain ⟨stats', hget', -⟩ := (h.mem term _ f).mp hp
      rw [hget] at hget'
      simp at hget'
    cases stats.termFrequencies.get term with
    | none => simpa using h.nodup term
    | some f =>
      rw [Option.elim_some, List.map_singleton, List.map_append, List.map_singleton]
      refine List.nodup_append.mpr ⟨h.nodup term, List.nodup_singleton _, ?_⟩
      intro a ha b hb hab
      have heq : a = id := hab.trans (List.mem_singleton.mp hb)
      exact hnot (heq ▸ ha)
  mem term id' frequency := by
    rw [order.filter_key, List.mem_append, h.mem, OrderedTable.get_insert]
    by_cases hid : id' = id
    · subst hid
      cases hf : stats.termFrequencies.get term with
      | none => simp [hget, hf]
      | some f => simp [hget, hf, eq_comm]
    · cases stats.termFrequencies.get term with
      | none => simp [hid]
      | some f => simp [hid]

/-- What `forgetRows` finds and leaves. -/
theorem forgetRows_spec (h : RowsOf codecs db docs) (id : VectorId) :
    ∃ prior view, forgetRows codecs db id = .ok prior ∧
      Lists codecs (prior.elim db.postings Prod.fst) view ∧ PostingsOf (docs.erase id) view ∧
      prior.map Prod.snd = (docs.get id).map fun stats => -(stats.length : Int) := by
  obtain ⟨view, hlists, hpostings⟩ := h.postings
  unfold forgetRows
  cases hget : docs.get id with
  | none =>
    rw [h.absent id hget]
    refine ⟨none, view, rfl, hlists, ?_, rfl⟩
    rw [docs.erase_of_none hget]
    exact hpostings
  | some stats =>
    obtain ⟨terms, hterms, hof⟩ := h.terms id stats hget
    obtain ⟨kept, hdrop, hkept⟩ := dropPostings_spec hlists id terms
    have hdelta : lengthDelta codecs db id = .ok (-(stats.length : Int)) := by
      unfold lengthDelta
      rw [h.lengths, OrderedTable.get_mapValues, hget, Option.map_some]
      dsimp only
      rw [codecs.length.parse_encode]
      rfl
    rw [hterms]
    refine ⟨some (kept, -(stats.length : Int)), _, ?_, hkept, hpostings.erase hget hof, rfl⟩
    dsimp only
    rw [codecs.terms.parse_encode]
    show (terms.foldlM (dropPosting codecs id) db.postings >>= _) = _
    rw [hdrop]
    show (lengthDelta codecs db id >>= _) = _
    rw [hdelta]
    rfl

/-- The transaction of `insert`. -/
theorem insertRows_spec (h : RowsOf codecs db docs) (postings terms : HashOrder) (id : VectorId)
    (stats : DocStats) :
    ∃ change, insertRows codecs db postings terms id stats = .ok change ∧
      RowsOf codecs change.db ((docs.erase id).insert id stats) ∧
      change.sizeDelta = ((docs.get id).elim 0 fun _ => -1) + 1 ∧
      change.tokenDelta = ((docs.get id).elim 0 fun old => -(old.length : Int)) + stats.length := by
  obtain ⟨prior, view, hforget, hlists, hpostings, hdelta⟩ := forgetRows_spec h id
  have hnone : (docs.erase id).get id = none := by rw [OrderedTable.get_erase, if_pos rfl]
  obtain ⟨lists, hadd, hlists'⟩ := addPostings_spec hlists id (postings.entries stats.termFrequencies)
  unfold insertRows
  rw [hforget]
  show ∃ change, (List.foldlM (addPosting codecs id) (prior.elim db.postings Prod.fst)
    (postings.entries stats.termFrequencies) >>= _) = .ok change ∧ _
  rw [hadd]
  refine ⟨_, rfl, ⟨?_, ?_, ?_, _, hlists', hpostings.insert hnone postings⟩, ?_, ?_⟩
  · rw [OrderedTable.insert_erase, OrderedTable.mapValues_insert, h.lengths]
  · intro id' hget
    rw [OrderedTable.get_insert, OrderedTable.get_erase] at hget
    by_cases hid : id' = id
    · rw [if_pos hid] at hget
      simp at hget
    · rw [if_neg hid, if_neg hid] at hget
      rw [OrderedTable.get_insert_ne _ _ hid]
      exact h.absent id' hget
  · intro id' stats' hget
    rw [OrderedTable.get_insert, OrderedTable.get_erase] at hget
    by_cases hid : id' = id
    · rw [if_pos hid] at hget
      cases hget
      rw [hid, OrderedTable.get_insert_self]
      exact ⟨_, rfl, fun term => terms.mem_keys_iff stats.termFrequencies⟩
    · rw [if_neg hid, if_neg hid] at hget
      rw [OrderedTable.get_insert_ne _ _ hid]
      exact h.terms id' stats' hget
  · cases prior <;> cases hget : docs.get id <;> simp_all
  · cases prior <;> cases hget : docs.get id <;> simp_all

/-- The transaction of `remove`. -/
theorem removeRows_spec (h : RowsOf codecs db docs) (id : VectorId) :
    ∃ change, removeRows codecs db id = .ok change ∧ RowsOf codecs change.db (docs.erase id) ∧
      change.sizeDelta = ((docs.get id).elim 0 fun _ => -1) ∧
      change.tokenDelta = ((docs.get id).elim 0 fun old => -(old.length : Int)) := by
  obtain ⟨prior, view, hforget, hlists, hpostings, hdelta⟩ := forgetRows_spec h id
  unfold removeRows
  rw [hforget]
  cases hget : docs.get id with
  | none =>
    rw [hget] at hdelta
    obtain rfl : prior = none := by simpa using hdelta
    rw [docs.erase_of_none hget]
    exact ⟨_, rfl, h, rfl, rfl⟩
  | some stats =>
    rw [hget] at hdelta
    obtain ⟨kept, rfl⟩ : ∃ kept, prior = some (kept, -(stats.length : Int)) := by
      cases prior with
      | none => simp at hdelta
      | some p => exact ⟨p.1, by simpa [Prod.ext_iff] using hdelta⟩
    refine ⟨_, rfl, ⟨?_, ?_, ?_, view, hlists, hpostings⟩, rfl, rfl⟩
    · rw [OrderedTable.mapValues_erase, h.lengths]
    · intro id' hget'
      rw [OrderedTable.get_erase] at hget' ⊢
      by_cases hid : id' = id
      · rw [if_pos hid]
      · rw [if_neg hid] at hget' ⊢
        exact h.absent id' hget'
    · intro id' stats' hget'
      rw [OrderedTable.get_erase] at hget' ⊢
      by_cases hid : id' = id
      · rw [if_pos hid] at hget'
        simp at hget'
      · rw [if_neg hid] at hget' ⊢
        exact h.terms id' stats' hget'

end Rows

end LexicalDb

end EidosDB
