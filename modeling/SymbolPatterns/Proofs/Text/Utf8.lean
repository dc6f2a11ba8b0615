import SymbolPatterns.Proofs.Outcome
import SymbolPatterns.Text.Utf8

/-!
Octets that are read as characters are the octets that these characters are
written with, and the other way round. So a text that was read from octets is
written back as the same octets, and a text that is written comes back.
-/

namespace SymbolPatterns.Text.Utf8

theorem tailPiece_eq_char {low high : UInt8} {missing size payload : Nat} {octets : List UInt8}
    {c : Char} {total : Nat}
    (h : tailPiece low high (missing + 1) size payload octets = .char c total) :
    ∃ octet rest, octets = octet :: rest ∧ low ≤ octet ∧ octet ≤ high ∧
      tailPiece 0x80 0xbf missing (size + 1) (payload * 64 + (octet.toNat - 0x80)) rest =
        .char c total := by
  cases octets with
  | nil => cases h
  | cons octet rest =>
      rw [tailPiece] at h
      split at h
      · next hrange =>
        simp only [Bool.and_eq_true, decide_eq_true_eq] at hrange
        exact ⟨octet, rest, rfl, hrange.1, hrange.2, h⟩
      · cases h

/-- What a lead announces: its own value, the number of octets behind it, and
the range of the first of these, narrower where the value would be overlong, a
surrogate or too great. The table is written as a relation, one rule for each
row. -/
inductive Announces (octet : UInt8) : Nat → Nat → UInt8 → UInt8 → Prop where
  | two {payload : Nat} (value : octet.toNat = 0xc0 + payload) (least : 2 ≤ payload)
      (below : payload < 32) : Announces octet payload 1 0x80 0xbf
  | three {payload : Nat} {low high : UInt8} (value : octet.toNat = 0xe0 + payload)
      (below : payload < 16) (inside : 0x80 ≤ low.toNat ∧ high.toNat ≤ 0xbf)
      (least : payload = 0 → low.toNat = 0xa0) (noSurrogate : payload = 13 → high.toNat = 0x9f) :
      Announces octet payload 2 low high
  | four {payload : Nat} {low high : UInt8} (value : octet.toNat = 0xf0 + payload)
      (below : payload ≤ 4) (inside : 0x80 ≤ low.toNat ∧ high.toNat ≤ 0xbf)
      (least : payload = 0 → low.toNat = 0x90) (greatest : payload = 4 → high.toNat = 0x8f) :
      Announces octet payload 3 low high

theorem announces_of_lead? {octet low high : UInt8} {payload missing : Nat}
    (h : lead? octet = some (payload, missing, low, high)) :
    Announces octet payload missing low high := by
  unfold lead? at h
  simp only [UInt8.lt_iff_toNat_lt, ← UInt8.toNat_inj, UInt8.reduceToNat] at h
  split at h
  · cases h
  · split at h
    · obtain ⟨rfl, rfl, rfl, rfl⟩ := by simpa using h
      exact .two (by omega) (by omega) (by omega)
    · split at h
      · obtain ⟨rfl, rfl, rfl, rfl⟩ := by simpa using h
        exact .three (by omega) (by omega) (by decide) (by decide) (by omega)
      · split at h
        · obtain ⟨rfl, rfl, rfl, rfl⟩ := by simpa using h
          exact .three (by omega) (by omega) (by decide) (by omega) (by decide)
        · split at h
          · obtain ⟨rfl, rfl, rfl, rfl⟩ := by simpa using h
            exact .three (by omega) (by omega) (by decide) (by omega) (by omega)
          · split at h
            · obtain ⟨rfl, rfl, rfl, rfl⟩ := by simpa using h
              exact .four (by omega) (by omega) (by decide) (by decide) (by omega)
            · split at h
              · obtain ⟨rfl, rfl, rfl, rfl⟩ := by simpa using h
                exact .four (by omega) (by omega) (by decide) (by omega) (by omega)
              · split at h
                · obtain ⟨rfl, rfl, rfl, rfl⟩ := by simpa using h
                  exact .four (by omega) (by omega) (by decide) (by omega) (by decide)
                · cases h

theorem ofNat_eq_octet (octet : UInt8) {n : Nat} (h : octet.toNat = n) : UInt8.ofNat n = octet := by
  rw [← h, UInt8.ofNat_toNat]

theorem toNat_val_ofNat {n : Nat} (h : n.isValidChar) : (Char.ofNat n).val.toNat = n := by
  rw [Char.ofNat, dif_pos h]
  rfl

/-- A character that is read is written with the octets that it was read from,
so no character is read from two sequences. -/
theorem utf8EncodeChar_of_pieceAt {octet : UInt8} {rest : List UInt8} {c : Char} {size : Nat}
    (h : pieceAt octet rest = .char c size) :
    String.utf8EncodeChar c = octet :: rest.take (size - 1) := by
  unfold pieceAt at h
  split at h
  · next hascii =>
    obtain ⟨rfl, rfl⟩ := by simpa using h
    have hbelow : octet.toNat < 128 := UInt8.lt_iff_toNat_lt.1 hascii
    have hvalid : octet.toNat.isValidChar := .inl (by omega)
    rw [String.utf8EncodeChar, toNat_val_ofNat hvalid, if_pos (by omega), ofNat_eq_octet octet rfl]
    simp
  · split at h
    · cases h
    · next payload missing low high hlead =>
      cases announces_of_lead? hlead with
      | two hvalue hleast hbelow =>
          obtain ⟨first, behind, rfl, hlow, hhigh, h⟩ := tailPiece_eq_char h
          obtain ⟨rfl, rfl⟩ := by simpa [tailPiece] using h
          simp only [UInt8.le_iff_toNat_le, UInt8.reduceToNat] at hlow hhigh
          have hvalid : (payload * 64 + (first.toNat - 128)).isValidChar := .inl (by omega)
          rw [String.utf8EncodeChar, toNat_val_ofNat hvalid, if_neg (by omega), if_pos (by omega),
            ofNat_eq_octet octet (by omega), ofNat_eq_octet first (by omega)]
          rfl
      | three hvalue hbelow hinside hleast hsurrogate =>
          obtain ⟨first, behind, rfl, hlow, hhigh, h⟩ := tailPiece_eq_char h
          obtain ⟨second, behind, rfl, hlow', hhigh', h⟩ := tailPiece_eq_char h
          obtain ⟨rfl, rfl⟩ := by simpa [tailPiece] using h
          simp only [UInt8.le_iff_toNat_le, UInt8.reduceToNat] at hlow hhigh hlow' hhigh'
          have hvalid : ((payload * 64 + (first.toNat - 128)) * 64 +
              (second.toNat - 128)).isValidChar := by
            by_cases hpayload : payload ≤ 13
            · exact .inl (by omega)
            · exact .inr (by omega)
          rw [String.utf8EncodeChar, toNat_val_ofNat hvalid, if_neg (by omega), if_neg (by omega),
            if_pos (by omega), ofNat_eq_octet octet (by omega),
            ofNat_eq_octet first (by omega), ofNat_eq_octet second (by omega)]
          rfl
      | four hvalue hbelow hinside hleast hgreatest =>
          obtain ⟨first, behind, rfl, hlow, hhigh, h⟩ := tailPiece_eq_char h
          obtain ⟨second, behind, rfl, hlow', hhigh', h⟩ := tailPiece_eq_char h
          obtain ⟨third, behind, rfl, hlow'', hhigh'', h⟩ := tailPiece_eq_char h
          obtain ⟨rfl, rfl⟩ := by simpa [tailPiece] using h
          simp only [UInt8.le_iff_toNat_le, UInt8.reduceToNat] at hlow hhigh hlow' hhigh' hlow'' hhigh''
          have hvalid : (((payload * 64 + (first.toNat - 128)) * 64 + (second.toNat - 128)) * 64 +
              (third.toNat - 128)).isValidChar := .inr (by omega)
          rw [String.utf8EncodeChar, toNat_val_ofNat hvalid, if_neg (by omega), if_neg (by omega),
            if_neg (by omega), ofNat_eq_octet octet (by omega),
            ofNat_eq_octet first (by omega), ofNat_eq_octet second (by omega),
            ofNat_eq_octet third (by omega)]
          rfl

theorem piecesFrom_eq_drop (pending : Nat) (octets : List UInt8) :
    piecesFrom pending octets = pieces (octets.drop pending) := by
  induction pending generalizing octets with
  | zero => rfl
  | succ pending ih =>
      cases octets with
      | nil => rfl
      | cons octet rest => exact ih rest

theorem flatMap_of_charsFrom {octets : List UInt8} {index : Nat} {chars : List Char}
    (h : charsFrom index (pieces octets) = .ok chars) :
    chars.flatMap String.utf8EncodeChar = octets := by
  match octets with
  | [] =>
      obtain rfl := Except.ok.inj h
      rfl
  | octet :: rest =>
      rw [pieces, piecesFrom, piecesFrom_eq_drop] at h
      cases hpiece : pieceAt octet rest with
      | char c size =>
          rw [hpiece] at h
          obtain ⟨following, hfollowing, h⟩ := bind_eq_ok h
          obtain rfl := Except.ok.inj h
          have hencode := utf8EncodeChar_of_pieceAt hpiece
          have hrest := flatMap_of_charsFrom hfollowing
          rw [List.flatMap_cons, hencode, hrest, List.cons_append, Utf8Piece.size,
            List.take_append_drop]
      | invalid size =>
          rw [hpiece] at h
          cases h
      | cut size =>
          rw [hpiece] at h
          cases h
termination_by octets.length
decreasing_by
  rw [List.length_drop, List.length_cons]
  omega

theorem toList_loop_eq (octets : ByteArray) (index : Nat) (read : List UInt8) :
    ByteArray.toList.loop octets index read = read.reverse ++ octets.data.toList.drop index := by
  fun_induction ByteArray.toList.loop octets index read with
  | case1 index read hindex ih =>
      have hlist : index < octets.data.toList.length := by simpa using hindex
      rw [ih, List.drop_eq_getElem_cons hlist]
      simp [ByteArray.get!, hindex]
  | case2 index read hindex =>
      rw [List.drop_eq_nil_of_le (by simpa using Nat.le_of_not_lt hindex), List.append_nil]

theorem toList_eq_data (octets : ByteArray) : octets.toList = octets.data.toList := by
  rw [ByteArray.toList, toList_loop_eq]
  rfl

theorem toByteArray_toList (octets : ByteArray) : octets.toList.toByteArray = octets := by
  rw [toList_eq_data, ByteArray.ext_iff, List.data_toByteArray]

/-- A text that was read from octets is written as these octets. A grammar
that is not changed can be told from its octets by this. -/
theorem toUTF8_of_decode {octets : ByteArray} {text : String}
    (h : decode octets.toList = .ok text) : text.toUTF8 = octets := by
  unfold decode at h
  cases hchars : charsFrom 0 (pieces octets.toList) with
  | error fault =>
      rw [hchars] at h
      cases h
  | ok chars =>
      rw [hchars] at h
      obtain rfl := Except.ok.inj h
      rw [String.toUTF8_eq_toByteArray, String.toByteArray_ofList, List.utf8Encode,
        flatMap_of_charsFrom hchars, toByteArray_toList]

theorem toNat_ofNat_octet {n : Nat} (h : n < 256) : (UInt8.ofNat n).toNat = n := by
  rw [UInt8.toNat_ofNat', Nat.mod_eq_of_lt h]

/-- An octet in the range is passed, and behind the first one the range is
that of every octet that continues a character. -/
theorem tailPiece_cons {low high : UInt8} {n : Nat} (hlow : low.toNat ≤ n) (hhigh : n ≤ high.toNat)
    (missing size payload : Nat) (rest : List UInt8) :
    tailPiece low high (missing + 1) size payload (UInt8.ofNat n :: rest) =
      tailPiece 0x80 0xbf missing (size + 1) (payload * 64 + (n - 0x80)) rest := by
  have hoctet : (UInt8.ofNat n).toNat = n :=
    toNat_ofNat_octet (Nat.lt_of_le_of_lt hhigh high.toNat_lt)
  rw [tailPiece, hoctet]
  simp [UInt8.le_iff_toNat_le, hoctet, hlow, hhigh]

theorem tailPiece_following {n : Nat} (hleast : 0x80 ≤ n) (hgreatest : n ≤ 0xbf)
    (missing size payload : Nat) (rest : List UInt8) :
    tailPiece 0x80 0xbf (missing + 1) size payload (UInt8.ofNat n :: rest) =
      tailPiece 0x80 0xbf missing (size + 1) (payload * 64 + (n - 0x80)) rest :=
  tailPiece_cons hleast hgreatest missing size payload rest

theorem lead?_two {n : Nat} (hleast : 0xc2 ≤ n) (hbelow : n < 0xe0) :
    lead? (UInt8.ofNat n) = some (n - 0xc0, 1, 0x80, 0xbf) := by
  have hoctet : (UInt8.ofNat n).toNat = n := toNat_ofNat_octet (by omega)
  unfold lead?
  simp only [UInt8.lt_iff_toNat_lt, hoctet, UInt8.reduceToNat]
  rw [if_neg (by omega), if_pos hbelow]

theorem lead?_three {n : Nat} (hleast : 0xe0 ≤ n) (hbelow : n < 0xf0) :
    ∃ low high : UInt8, lead? (UInt8.ofNat n) = some (n - 0xe0, 2, low, high) ∧
      low.toNat = (if n = 0xe0 then 0xa0 else 0x80) ∧
      high.toNat = if n = 0xed then 0x9f else 0xbf := by
  have hoctet : (UInt8.ofNat n).toNat = n := toNat_ofNat_octet (by omega)
  unfold lead?
  simp only [UInt8.lt_iff_toNat_lt, ← UInt8.toNat_inj, hoctet, UInt8.reduceToNat]
  rw [if_neg (by omega), if_neg (by omega)]
  by_cases hfirst : n = 0xe0
  · exact ⟨0xa0, 0xbf, by simp [hfirst]⟩
  · by_cases hsurrogate : n = 0xed
    · exact ⟨0x80, 0x9f, by simp [hsurrogate]⟩
    · exact ⟨0x80, 0xbf, by simp [hfirst, hsurrogate, hbelow]⟩

theorem lead?_four {n : Nat} (hleast : 0xf0 ≤ n) (hgreatest : n ≤ 0xf4) :
    ∃ low high : UInt8, lead? (UInt8.ofNat n) = some (n - 0xf0, 3, low, high) ∧
      low.toNat = (if n = 0xf0 then 0x90 else 0x80) ∧
      high.toNat = if n = 0xf4 then 0x8f else 0xbf := by
  have hoctet : (UInt8.ofNat n).toNat = n := toNat_ofNat_octet (by omega)
  unfold lead?
  simp only [UInt8.lt_iff_toNat_lt, ← UInt8.toNat_inj, hoctet, UInt8.reduceToNat]
  rw [if_neg (by omega), if_neg (by omega), if_neg (by omega), if_neg (by omega),
    if_neg (by omega)]
  by_cases hfirst : n = 0xf0
  · exact ⟨0x90, 0xbf, by simp [hfirst]⟩
  · by_cases hlast : n = 0xf4
    · exact ⟨0x80, 0x8f, by simp [hlast]⟩
    · exact ⟨0x80, 0xbf, by simp [hfirst, hlast, show n < 0xf4 by omega]⟩

/-- A character is read from the octets that it is written with, whatever
follows them. The cases are those of the length. -/
theorem pieceAt_utf8EncodeChar (c : Char) (rest : List UInt8) :
    ∃ octet behind, String.utf8EncodeChar c = octet :: behind ∧
      pieceAt octet (behind ++ rest) = .char c (behind.length + 1) := by
  have hvalid : c.toNat.isValidChar := c.valid
  have hvalue : c.val.toNat = c.toNat := rfl
  unfold Nat.isValidChar at hvalid
  unfold String.utf8EncodeChar
  rw [hvalue]
  dsimp only
  generalize hn : c.toNat = n at *
  have hchar : Char.ofNat n = c := by rw [← hn, Char.ofNat_toNat]
  split
  · next hascii =>
    refine ⟨_, [], rfl, ?_⟩
    have hoctet : (UInt8.ofNat n).toNat = n := toNat_ofNat_octet (by omega)
    have hless : UInt8.ofNat n < 0x80 := by
      rw [UInt8.lt_iff_toNat_lt, hoctet]
      exact Nat.lt_succ_of_le hascii
    rw [pieceAt, if_pos hless, hoctet, hchar]
    rfl
  · next hascii =>
    have hlarge : ∀ lead, 0x80 ≤ lead → lead < 256 → ¬UInt8.ofNat lead < 0x80 := by
      intro lead hleast hbelow
      rw [UInt8.lt_iff_toNat_lt, toNat_ofNat_octet hbelow]
      exact Nat.not_lt.2 hleast
    split
    · next htwo =>
      refine ⟨_, _, rfl, ?_⟩
      rw [pieceAt, if_neg (hlarge _ (by omega) (by omega)),
        lead?_two (by omega) (by omega)]
      dsimp only [List.cons_append, List.nil_append]
      rw [tailPiece_following (by omega) (by omega),
        tailPiece]
      rw [show (n / 64 % 32 + 192 - 192) * 64 + (n % 64 + 128 - 128) = n by omega, hchar]
      rfl
    · next htwo =>
      split
      · next hthree =>
        obtain ⟨low, high, hlead, hlow, hhigh⟩ :=
          @lead?_three (n / 4096 % 16 + 224) (by omega) (by omega)
        refine ⟨_, _, rfl, ?_⟩
        rw [pieceAt, if_neg (hlarge _ (by omega) (by omega)), hlead]
        dsimp only [List.cons_append, List.nil_append]
        rw [tailPiece_cons (by rw [hlow]; split <;> omega) (by rw [hhigh]; split <;> omega),
          tailPiece_following (by omega) (by omega),
          tailPiece]
        have hpayload : ((n / 4096 % 16 + 224 - 224) * 64 + (n / 64 % 64 + 128 - 128)) * 64 +
            (n % 64 + 128 - 128) = n := by omega
        rw [hpayload, hchar]
        rfl
      · next hthree =>
        obtain ⟨low, high, hlead, hlow, hhigh⟩ :=
          @lead?_four (n / 262144 % 8 + 240) (by omega) (by omega)
        refine ⟨_, _, rfl, ?_⟩
        rw [pieceAt, if_neg (hlarge _ (by omega) (by omega)), hlead]
        dsimp only [List.cons_append, List.nil_append]
        rw [tailPiece_cons (by rw [hlow]; split <;> omega) (by rw [hhigh]; split <;> omega),
          tailPiece_following (by omega) (by omega),
          tailPiece_following (by omega) (by omega),
          tailPiece]
        have hpayload : (((n / 262144 % 8 + 240 - 240) * 64 + (n / 4096 % 64 + 128 - 128)) * 64 +
            (n / 64 % 64 + 128 - 128)) * 64 + (n % 64 + 128 - 128) = n := by omega
        rw [hpayload, hchar]
        rfl

/-- The characters of a text and the octets that it is written with. It lets
both directions be proved on lists. -/
theorem toList_toUTF8 (text : String) :
    text.toUTF8.data.toList = text.toList.flatMap String.utf8EncodeChar := by
  have htext := String.toByteArray_ofList (l := text.toList)
  rw [String.ofList_toList] at htext
  rw [String.toUTF8_eq_toByteArray, htext, List.utf8Encode, List.data_toByteArray]

/-- What is written for some characters is read as these, whatever follows.
Ill-formed octets behind them do not reach back. -/
theorem pieces_append (chars : List Char) (rest : List UInt8) :
    pieces (chars.flatMap String.utf8EncodeChar ++ rest) =
      (chars.map fun c => .char c (String.utf8EncodeChar c).length) ++ pieces rest := by
  induction chars with
  | nil => rfl
  | cons c chars ih =>
      obtain ⟨octet, behind, hencode, hpiece⟩ :=
        pieceAt_utf8EncodeChar c (chars.flatMap String.utf8EncodeChar ++ rest)
      rw [List.flatMap_cons, hencode, List.append_assoc, List.cons_append, pieces, piecesFrom, hpiece]
      dsimp only [Utf8Piece.size]
      rw [piecesFrom_eq_drop, Nat.add_sub_cancel, List.drop_left, ih, List.map_cons, hencode]
      rfl

theorem pieces_toUTF8 (text : String) :
    pieces text.toUTF8.data.toList =
      text.toList.map fun c => .char c (String.utf8EncodeChar c).length := by
  have hpieces := pieces_append text.toList []
  rwa [List.append_nil, ← toList_toUTF8, show pieces [] = [] from rfl, List.append_nil] at hpieces

theorem charsFrom_map (index : Nat) (chars : List Char) (size : Char → Nat) :
    charsFrom index (chars.map fun c => .char c (size c)) = .ok chars := by
  induction chars generalizing index with
  | nil => rfl
  | cons c chars ih =>
      rw [List.map_cons, charsFrom, ih]
      rfl

/-- A text is read from the octets that it is written with, so whatever is
printed to a file can be read from it. -/
theorem decode_toUTF8 (text : String) : decode text.toUTF8.data.toList = .ok text := by
  rw [decode, pieces_toUTF8, charsFrom_map]
  exact congrArg Except.ok String.ofList_toList

theorem decodeLenient_toUTF8 (text : String) : decodeLenient text.toUTF8.data.toList = text := by
  rw [decodeLenient, pieces_toUTF8, List.map_map]
  have hid : Utf8Piece.lenient ∘ (fun c => .char c (String.utf8EncodeChar c).length) = id := rfl
  rw [hid, List.map_id, String.ofList_toList]

end SymbolPatterns.Text.Utf8
