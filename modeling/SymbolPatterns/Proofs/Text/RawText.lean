import SymbolPatterns.Proofs.Text.Utf8
import SymbolPatterns.Text.RawText

/-!
What the shown form of a raw text says about its octets. A part that is shown
without a replacement character is the octets that this part is written with;
and an octet of ASCII stands for itself, whatever ill-formed part it follows.
-/

namespace SymbolPatterns

namespace Text.Utf8

theorem pieces_ascii_cons {octet : UInt8} (h : octet < 0x80) (rest : List UInt8) :
    pieces (octet :: rest) = .char (Char.ofNat octet.toNat) 1 :: pieces rest := by
  rw [pieces, piecesFrom, pieceAt, if_pos h]
  rfl

/-- In front of an octet outside the range, a character that is cut is
ill-formed, just as it is at the end of a text. -/
theorem tailPiece_append {low high octet : UInt8} (hlow : 0x80 ≤ low) (hoctet : octet < 0x80)
    (missing size payload : Nat) (front rest : List UInt8) :
    (tailPiece low high missing size payload (front ++ octet :: rest)).lenient =
        (tailPiece low high missing size payload front).lenient ∧
      (tailPiece low high missing size payload (front ++ octet :: rest)).size =
        (tailPiece low high missing size payload front).size ∧
      (tailPiece low high missing size payload front).size ≤ size + front.length := by
  induction front generalizing low high missing size payload with
  | nil =>
      cases missing with
      | zero => exact ⟨rfl, rfl, Nat.le_refl size⟩
      | succ missing =>
          have hout : ¬(low ≤ octet) := by
            rw [UInt8.not_le]
            exact UInt8.lt_of_lt_of_le hoctet hlow
          simp [tailPiece, hout, Utf8Piece.lenient, Utf8Piece.size]
  | cons first front ih =>
      cases missing with
      | zero => exact ⟨rfl, rfl, Nat.le_add_right ..⟩
      | succ missing =>
          rw [List.cons_append, tailPiece, tailPiece]
          split
          · obtain ⟨hlenient, hsize, hle⟩ :=
              @ih 0x80 0xbf (UInt8.le_refl _) missing (size + 1) (payload * 64 + (first.toNat - 0x80))
            refine ⟨hlenient, hsize, Nat.le_trans hle (Nat.le_of_eq ?_)⟩
            rw [List.length_cons]
            omega
          · exact ⟨rfl, rfl, Nat.le_add_right ..⟩

theorem low_of_announces {octet low high : UInt8} {payload missing : Nat}
    (h : Announces octet payload missing low high) : 0x80 ≤ low := by
  cases h with
  | two => exact UInt8.le_refl _
  | three _ _ hinside => exact UInt8.le_iff_toNat_le.2 hinside.1
  | four _ _ hinside => exact UInt8.le_iff_toNat_le.2 hinside.1

theorem pieceAt_append {octet : UInt8} (hoctet : octet < 0x80) (first : UInt8)
    (front rest : List UInt8) :
    (pieceAt first (front ++ octet :: rest)).lenient = (pieceAt first front).lenient ∧
      (pieceAt first (front ++ octet :: rest)).size = (pieceAt first front).size ∧
      (pieceAt first front).size ≤ 1 + front.length := by
  unfold pieceAt
  split
  · exact ⟨rfl, rfl, Nat.le_add_right ..⟩
  · split
    · exact ⟨rfl, rfl, Nat.le_add_right ..⟩
    · next payload missing low high hlead =>
      exact tailPiece_append (low_of_announces (announces_of_lead? hlead)) hoctet ..

/-- An octet of ASCII begins a piece, whatever stands in front of it. No
sequence of several octets contains one. -/
theorem lenient_append {octet : UInt8} (hoctet : octet < 0x80) (front rest : List UInt8) :
    (pieces (front ++ octet :: rest)).map Utf8Piece.lenient =
      (pieces front).map Utf8Piece.lenient ++
        (pieces (octet :: rest)).map Utf8Piece.lenient := by
  match front with
  | [] => rfl
  | first :: front =>
      obtain ⟨hlenient, hsize, hle⟩ := pieceAt_append hoctet first front rest
      have hdrop : (front ++ octet :: rest).drop ((pieceAt first front).size - 1) =
          front.drop ((pieceAt first front).size - 1) ++ octet :: rest :=
        List.drop_append_of_le_length (by omega)
      have hbehind := lenient_append hoctet (front.drop ((pieceAt first front).size - 1)) rest
      rw [List.cons_append, pieces, piecesFrom, pieces, piecesFrom, hsize, piecesFrom_eq_drop,
        piecesFrom_eq_drop, hdrop, List.map_cons, List.map_cons,
        hlenient, hbehind, List.cons_append]
termination_by front.length
decreasing_by
  rw [List.length_drop, List.length_cons]
  omega

/-- Some last pieces are those of the octets behind the other ones, since
pieces are read from left to right. -/
theorem exists_suffix_of_pieces {octets : List UInt8} {front back : List Utf8Piece}
    (h : pieces octets = front ++ back) : ∃ before rest, octets = before ++ rest ∧
      pieces rest = back := by
  induction front generalizing octets with
  | nil => exact ⟨[], octets, rfl, h⟩
  | cons piece front ih =>
      cases octets with
      | nil => cases h
      | cons octet rest =>
          rw [pieces, piecesFrom, piecesFrom_eq_drop] at h
          obtain ⟨-, hbehind⟩ := List.cons.inj h
          obtain ⟨before, after, hrest, hafter⟩ := ih hbehind
          refine ⟨octet :: rest.take ((pieceAt octet rest).size - 1) ++ before, after, ?_, hafter⟩
          rw [List.append_assoc, ← hrest, List.cons_append, List.take_append_drop]

/-- A character is read from the octets that it is written with, if it is not
the one that stands for an ill-formed part. That one may have been written as
itself or stand for something else. -/
theorem exists_of_lenient_cons {octets : List UInt8} {c : Char} {chars : List Char}
    (h : (pieces octets).map Utf8Piece.lenient = c :: chars) (hc : c ≠ '\ufffd') :
    ∃ rest, octets = String.utf8EncodeChar c ++ rest ∧
      (pieces rest).map Utf8Piece.lenient = chars := by
  cases octets with
  | nil => cases h
  | cons octet rest =>
      rw [pieces, piecesFrom, List.map_cons, piecesFrom_eq_drop] at h
      obtain ⟨hfirst, hrest⟩ := List.cons.inj h
      cases hpiece : pieceAt octet rest with
      | char value size =>
          rw [hpiece] at hfirst hrest
          obtain rfl : value = c := hfirst
          refine ⟨rest.drop (size - 1), ?_, hrest⟩
          rw [utf8EncodeChar_of_pieceAt hpiece, List.cons_append, List.take_append_drop]
      | invalid size =>
          rw [hpiece] at hfirst
          exact absurd hfirst.symm hc
      | cut size =>
          rw [hpiece] at hfirst
          exact absurd hfirst.symm hc

theorem exists_of_lenient_append {octets : List UInt8} {text chars : List Char}
    (h : (pieces octets).map Utf8Piece.lenient = text ++ chars) (htext : '\ufffd' ∉ text) :
    ∃ rest, octets = text.flatMap String.utf8EncodeChar ++ rest ∧
      (pieces rest).map Utf8Piece.lenient = chars := by
  induction text generalizing octets with
  | nil => exact ⟨octets, rfl, h⟩
  | cons c text ih =>
      rw [List.mem_cons, not_or] at htext
      obtain ⟨behind, rfl, hbehind⟩ := exists_of_lenient_cons h (Ne.symm htext.1)
      obtain ⟨rest, rfl, hrest⟩ := ih hbehind htext.2
      exact ⟨rest, by rw [List.flatMap_cons, List.append_assoc], hrest⟩

theorem pieces_eq_nil {octets : List UInt8} (h : pieces octets = []) : octets = [] := by
  cases octets with
  | nil => rfl
  | cons octet rest => cases h

/-- What is shown without such a character is what the octets are written for.
This makes fixed parts of a name visible in its octets. -/
theorem toUTF8_decodeLenient {octets : List UInt8}
    (h : '\ufffd' ∉ (decodeLenient octets).toList) :
    (decodeLenient octets).toUTF8.data.toList = octets := by
  rw [decodeLenient, String.toList_ofList] at h
  obtain ⟨rest, hoctets, hrest⟩ := exists_of_lenient_append (List.append_nil _).symm h
  rw [toList_toUTF8, decodeLenient, String.toList_ofList]
  rw [pieces_eq_nil (List.map_eq_nil_iff.1 hrest), List.append_nil] at hoctets
  exact hoctets.symm

end Text.Utf8

namespace RawText

open Text.Utf8

variable {raw other : RawText}

@[simp] theorem toList_ofList (octets : List UInt8) : (ofList octets).toList = octets := rfl

theorem toList_inj : raw.toList = other.toList ↔ raw = other :=
  ⟨fun h => congrArg ofList h, congrArg toList⟩

@[simp] theorem toList_append (raw other : RawText) :
    (raw ++ other).toList = raw.toList ++ other.toList := rfl

@[simp] theorem toList_empty : (ofText "").toList = [] := rfl

theorem toList_eq_nil_iff : raw.toList = [] ↔ raw = "" := @toList_inj raw ""

@[simp] theorem isEmpty_iff : raw.isEmpty = true ↔ raw = "" := by
  rw [isEmpty, List.isEmpty_iff, toList_eq_nil_iff]

/-- Names are told by their octets, and pieces by the names that they spell. -/
theorem map_ofList_toList (names : List RawText) : (names.map toList).map ofList = names := by
  rw [List.map_map]
  exact List.map_id names

theorem map_toList_ofList (pieces : List (List UInt8)) :
    (pieces.map ofList).map toList = pieces := by
  rw [List.map_map]
  exact List.map_id pieces

theorem lt_irrefl (raw : RawText) : ¬raw < raw := List.lt_irrefl raw.toList

theorem lt_trans {third : RawText} (h : raw < other) (hnext : other < third) : raw < third :=
  List.lt_trans h hnext

theorem lt_asymm (h : raw < other) : ¬other < raw := fun hback => lt_irrefl raw (lt_trans h hback)

theorem eq_of_not_lt (h : ¬raw < other) (hback : ¬other < raw) : raw = other :=
  toList_inj.1 (List.le_antisymm (List.not_lt.1 hback) (List.not_lt.1 h))

theorem toList_ofText (text : String) :
    (ofText text).toList = text.toList.flatMap String.utf8EncodeChar := toList_toUTF8 text

theorem shown_ofText (text : String) : (ofText text).shown = text := decodeLenient_toUTF8 text

theorem text?_ofText (text : String) : (ofText text).text? = some text := by
  rw [text?, ofText, decode_toUTF8]
  rfl

theorem isText_ofText (text : String) : (ofText text).isText = true := by
  rw [isText, text?_ofText]
  rfl

@[simp] theorem ofText_inj {text other : String} : ofText text = ofText other ↔ text = other :=
  ⟨fun h => by rw [← shown_ofText text, h, shown_ofText], congrArg ofText⟩

theorem ofText_append (text other : String) :
    ofText (text ++ other) = ofText text ++ ofText other := by
  apply toList_inj.1
  rw [toList_append, toList_ofText, toList_ofText, toList_ofText, String.toList_append,
    List.flatMap_append]

theorem ofText_of_text? {text : String} (h : raw.text? = some text) : ofText text = raw := by
  apply toList_inj.1
  unfold text? decode at h
  cases hchars : charsFrom 0 (pieces raw.toList) with
  | error fault =>
      rw [hchars] at h
      cases h
  | ok chars =>
      rw [hchars] at h
      obtain rfl := Option.some.inj h
      rw [toList_ofText, String.toList_ofList, flatMap_of_charsFrom hchars]

/-- A raw text that is a text is written for what it is shown as. So nothing
is lost by showing it. -/
theorem ofText_shown (h : raw.isText = true) : ofText raw.shown = raw := by
  obtain ⟨text, htext⟩ := Option.isSome_iff_exists.1 h
  rw [← ofText_of_text? htext, shown_ofText]

/-- So is one that is shown without a replacement character, and it need not
be known to be a text. -/
theorem eq_ofText_of_shown {text : String} (h : raw.shown = text) (htext : '\ufffd' ∉ text.toList) :
    raw = text := by
  subst h
  exact toList_inj.1 (toUTF8_decodeLenient htext).symm

theorem shown_eq_iff {text : String} (htext : '\ufffd' ∉ text.toList) :
    raw.shown = text ↔ raw = text :=
  ⟨fun h => eq_ofText_of_shown h htext, fun h => h ▸ shown_ofText text⟩

theorem isText_append (h : raw.isText = true) (hother : other.isText = true) :
    (raw ++ other).isText = true := by
  rw [← ofText_shown h, ← ofText_shown hother, ← ofText_append]
  exact isText_ofText _

/-- Texts are told apart by what they are shown as. Of two raw texts that are
none, or of which one is none, this is not so. -/
theorem shown_inj (h : raw.isText = true) (hother : other.isText = true) :
    raw.shown = other.shown ↔ raw = other :=
  ⟨fun hshown => by rw [← ofText_shown h, hshown, ofText_shown hother], congrArg shown⟩

theorem toList_shown (raw : RawText) :
    raw.shown.toList = (pieces raw.toList).map Text.Utf8Piece.lenient := String.toList_ofList

/-- An octet of ASCII stands for itself in a text. A slash or a dot in the
octets is one in the text, then. -/
theorem mem_of_mem_ofText {octet : UInt8} (hoctet : octet < 0x80) {text : String}
    (h : octet ∈ (ofText text).toList) : Char.ofNat octet.toNat ∈ text.toList := by
  obtain ⟨front, rest, hsplit⟩ := List.append_of_mem h
  rw [← shown_ofText text, toList_shown, hsplit, lenient_append hoctet, pieces_ascii_cons hoctet]
  exact List.mem_append_right _ List.mem_cons_self

/-- What stands behind a text is shown behind it, ill-formed or not. -/
theorem shown_ofText_append (text : String) (raw : RawText) :
    (text ++ raw : RawText).shown = text ++ raw.shown := by
  apply String.toList_inj.1
  rw [toList_shown, toList_append, toList_ofText, pieces_append, List.map_append, String.toList_append,
    toList_shown, List.map_map]
  exact congrArg (· ++ _) (List.map_id _)

/-- A text that begins with a character of ASCII is shown as it is, whatever
stands in front: a sequence that is cut ends before it. -/
theorem shown_append_ofText {text : String} {c : Char} {rest : List Char}
    (htext : text.toList = c :: rest) (hascii : c.toNat < 0x80) (raw : RawText) :
    (raw ++ text : RawText).shown = raw.shown ++ text := by
  have hencode : String.utf8EncodeChar c = [UInt8.ofNat c.toNat] := by
    rw [String.utf8EncodeChar]
    exact if_pos (Nat.le_of_lt_succ hascii)
  have hoctet : UInt8.ofNat c.toNat < 0x80 := by
    rw [UInt8.lt_iff_toNat_lt, toNat_ofNat_octet (Nat.lt_trans hascii (by decide))]
    exact hascii
  have hbehind : (ofText text).toList =
      UInt8.ofNat c.toNat :: rest.flatMap String.utf8EncodeChar := by
    rw [toList_ofText, htext, List.flatMap_cons, hencode]
    rfl
  apply String.toList_inj.1
  rw [toList_shown, toList_append, hbehind, lenient_append hoctet, ← hbehind, ← toList_shown,
    ← toList_shown, shown_ofText, String.toList_append]

/-- A raw text is shown between two texts if it stands between their octets,
and only then. Names of files are recognised by such a front and back. -/
theorem shown_between_iff {front back : String} {c : Char} {rest : List Char}
    (hfront : '\ufffd' ∉ front.toList) (hback : '\ufffd' ∉ back.toList)
    (hfirst : back.toList = c :: rest) (hascii : c.toNat < 0x80) :
    (∃ middle : String, raw.shown = front ++ middle ++ back) ↔
      ∃ middle : RawText, raw = front ++ middle ++ back := by
  constructor
  · rintro ⟨middle, hshown⟩
    have hchars : (pieces raw.toList).map Text.Utf8Piece.lenient =
        front.toList ++ (middle.toList ++ back.toList) := by
      rw [← toList_shown, hshown, String.toList_append, String.toList_append, List.append_assoc]
    obtain ⟨behind, hraw, hbehind⟩ := exists_of_lenient_append hchars hfront
    obtain ⟨first, last, hpieces, -, hlast⟩ := List.map_eq_append_iff.1 hbehind
    obtain ⟨before, after, rfl, rfl⟩ := exists_suffix_of_pieces hpieces
    rw [← List.append_nil back.toList] at hlast
    obtain ⟨nothing, rfl, hnothing⟩ := exists_of_lenient_append hlast hback
    obtain rfl := pieces_eq_nil (List.map_eq_nil_iff.1 hnothing)
    refine ⟨ofList before, toList_inj.1 ?_⟩
    rw [hraw, toList_append, toList_append, toList_ofText, toList_ofText, toList_ofList,
      List.append_nil, List.append_assoc]
  · rintro ⟨middle, rfl⟩
    exact ⟨middle.shown, by rw [shown_append_ofText hfirst hascii, shown_ofText_append]⟩

end RawText

end SymbolPatterns
