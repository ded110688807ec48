import EidosDB.Lib.HashOrder

/-! # Inverse Conversions

    A conversion that may reject what it is given is inverse to another one if
    it accepts the values of the other and no more, each as what it is the
    value of.  Then a round trip from either side changes nothing.  Lists and
    tables are converted value by value. -/

variable {α β ε : Type}

theorem Except.ok_of_map {r : Except ε α} {f : α → β} {b : β} (h : r.map f = .ok b) :
    ∃ a, r = .ok a ∧ b = f a := by
  cases r with
  | error e => cases h
  | ok a =>
    cases h
    exact ⟨a, rfl, rfl⟩

theorem Except.ok_of_toOption {r : Except ε α} {a : α} (h : r.toOption = some a) : r = .ok a := by
  cases r with
  | error e => cases h
  | ok b => exact congrArg Except.ok (Option.some.inj h)

/-- `decode` accepts the values of `encode`, and no more. -/
def Inverse (encode : α → β) (decode : β → Except ε α) : Prop :=
  ∀ a b, decode b = .ok a ↔ encode a = b

namespace Inverse

variable {encode : α → β} {decode : β → Except ε α}

theorem decode_encode (h : Inverse encode decode) (a : α) : decode (encode a) = .ok a :=
  (h a (encode a)).mpr rfl

theorem encode_of_ok (h : Inverse encode decode) {a : α} {b : β} (hok : decode b = .ok a) :
    encode a = b := (h a b).mp hok

/-- The round trips from either side. -/
theorem of_laws (hdecode : ∀ a, decode (encode a) = .ok a)
    (hencode : ∀ a b, decode b = .ok a → encode a = b) : Inverse encode decode := by
  intro a b
  constructor
  · exact hencode a b
  · rintro rfl
    exact hdecode a

theorem injective (h : Inverse encode decode) : Function.Injective encode := by
  intro a a' heq
  have hok := h.decode_encode a
  rw [heq, h.decode_encode a'] at hok
  exact (Except.ok.inj hok).symm

/-- What is built from a decoded value. -/
theorem decode_map {γ : Type} (h : Inverse encode decode) (build : α → γ) (a : α) :
    (decode (encode a)).map build = .ok (build a) := by
  rw [h.decode_encode]
  rfl

theorem encode_of_map {γ : Type} (h : Inverse encode decode) {build : α → γ} {b : β} {c : γ}
    (hok : (decode b).map build = .ok c) : ∃ a, c = build a ∧ encode a = b := by
  obtain ⟨a, hb, hc⟩ := Except.ok_of_map hok
  exact ⟨a, hc, h.encode_of_ok hb⟩

/-- One conversion after another. -/
theorem comp {γ : Type} {encode' : γ → α} {decode' : α → Except ε γ} (h : Inverse encode decode)
    (h' : Inverse encode' decode') :
    Inverse (fun c => encode (encode' c)) fun b => decode b >>= decode' := by
  apply of_laws
  · intro c
    rw [h.decode_encode]
    exact h'.decode_encode c
  · intro c b hok
    cases hb : decode b with
    | error e =>
      rw [hb] at hok
      cases hok
    | ok a =>
      rw [hb] at hok
      rw [h'.encode_of_ok hok, h.encode_of_ok hb]

/-- Only the texts of the errors change. -/
theorem mapError {ε' : Type} (h : Inverse encode decode) (f : ε → ε') :
    Inverse encode fun b => (decode b).mapError f := by
  intro a b
  rw [← h a b]
  show (decode b).mapError f = .ok a ↔ decode b = .ok a
  cases decode b <;> simp [Except.mapError]

/-! ## Lists -/

theorem list (h : Inverse encode decode) :
    Inverse (List.map encode) (List.mapM decode) := by
  apply of_laws
  · intro l
    induction l with
    | nil => rfl
    | cons a l ih =>
      rw [List.map_cons, List.mapM_cons, h.decode_encode, ih]
      rfl
  · intro l bs hok
    induction bs generalizing l with
    | nil =>
      cases hok
      rfl
    | cons b bs ih =>
      rw [List.mapM_cons] at hok
      cases hb : decode b with
      | error e =>
        rw [hb] at hok
        cases hok
      | ok a =>
        cases hbs : bs.mapM decode with
        | error e =>
          rw [hb, hbs] at hok
          cases hok
        | ok as =>
          rw [hb, hbs] at hok
          cases hok
          rw [List.map_cons, h.encode_of_ok hb, ih as hbs]

end Inverse

/-! ## Tables -/

/-- A list over the image of a map is the image of a list. -/
theorem List.exists_map_perm {f : α → β} (hf : Function.Injective f) {l : List α} {bs : List β}
    (h : bs.Perm (l.map f)) : ∃ as : List α, bs = as.map f ∧ as.Perm l := by
  have hrange : bs ∈ Set.range (List.map f) := by
    rw [Set.range_list_map]
    intro b hb
    obtain ⟨a, -, ha⟩ := List.mem_map.mp (h.mem_iff.mp hb)
    exact ⟨a, ha⟩
  obtain ⟨as, rfl⟩ := hrange
  exact ⟨as, rfl, (List.map_perm_map_iff hf).mp h⟩

section

variable {K : Type} [LinearOrder K] {encode : α → β} {decode : β → Except ε α}

/-- The entries of a table that is collected from a list of entries without
    repeated keys. -/
theorem OrderedTable.ofList_perm {l : List (K × α)} {t : OrderedTable K α} (h : l.Perm t.entries) :
    OrderedTable.ofList l = t := by
  have hnodup : (l.map Prod.fst).Nodup := (h.map Prod.fst).nodup_iff.mpr t.nodup_keys
  apply OrderedTable.ext_get
  intro k
  apply Option.ext
  intro v
  rw [OrderedTable.get_ofList_iff hnodup, h.mem_iff, OrderedTable.mem_entries_iff]

/-- A table is converted entry by entry, in any order, and collected again. -/
theorem Inverse.table (h : Inverse encode decode) (order : HashOrder) :
    Inverse (OrderedTable.mapValues encode) fun t : OrderedTable K β =>
      ((order.entries t).mapM fun p => (decode p.2).map fun a => (p.1, a)).map
        OrderedTable.ofList := by
  have hentry : Inverse (fun p : K × α => (p.1, encode p.2))
      fun p : K × β => (decode p.2).map fun a => (p.1, a) := by
    rintro ⟨k, a⟩ ⟨k', b⟩
    dsimp only
    rw [Prod.mk.injEq, ← h a b]
    cases decode b with
    | error e => exact iff_of_false (fun hok => nomatch hok) fun hok => nomatch hok.2
    | ok a' => simp [Except.map, eq_comm]
  intro t t'
  dsimp only
  constructor
  · intro hok
    cases hentries : (order.entries t').mapM fun p => (decode p.2).map fun a => (p.1, a) with
    | error e =>
      rw [hentries] at hok
      cases hok
    | ok l =>
      rw [hentries] at hok
      cases hok
      have hmap := hentry.list.encode_of_ok hentries
      have hnodup : (l.map Prod.fst).Nodup := by
        have hkeys := order.nodup_keys t'
        rw [HashOrder.keys, ← hmap, List.map_map] at hkeys
        exact hkeys
      apply OrderedTable.ext_get
      intro k
      apply Option.ext
      intro b
      rw [OrderedTable.get_mapValues, Option.map_eq_some_iff, ← order.mem_entries_iff, ← hmap,
        List.mem_map]
      constructor
      · rintro ⟨a, ha, rfl⟩
        exact ⟨(k, a), (OrderedTable.get_ofList_iff hnodup k a).mp ha, rfl⟩
      · rintro ⟨⟨k', a⟩, hmem, heq⟩
        cases heq
        exact ⟨a, (OrderedTable.get_ofList_iff hnodup _ a).mpr hmem, rfl⟩
  · rintro rfl
    obtain ⟨l, hl, hperm⟩ := List.exists_map_perm hentry.injective (order.perm (t.mapValues encode))
    rw [hl, hentry.list.decode_encode]
    exact congrArg Except.ok (OrderedTable.ofList_perm hperm)

end
