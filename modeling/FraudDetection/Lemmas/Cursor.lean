import FraudDetection.Cursor

/-!
# What a cursor keeps

A cursor is written as a token and read back: each of its texts, the JSON that holds them, and the token.
-/

namespace FraudDetection

namespace CursorAux

/-- A character that JSON writes as it is. -/
def Plain (c : ℕ) : Prop := c ≠ 0x22 ∧ c ≠ 0x5C ∧ 0x1F < c ∧ c < 0x80

/-! ### Times -/

theorem plain_isoformat {value : Datetime} {c : ℕ} (h : c ∈ IsoFormat.isoformat value) : Plain c := by
  have := (IsoFormat.mem_isoformat h).lt
  unfold Plain
  omega

/-! ### Ids -/

theorem plain_hex : ∀ d < 16, Plain (HexText.hexChar d) ∧ HexText.hexChar d ≠ 0x2D ∧ HexText.hexChar d ≠ 0x3A ∧
    HexText.hexChar d ≠ 0x7B ∧ HexText.hexChar d ≠ 0x7D := by
  unfold Plain
  decide

/-- The digits of an id, and hyphens between them. -/
theorem mem_text {id : Uuid} {c : ℕ} (h : c ∈ id.text) : c = 0x2D ∨ c ∈ FixedDigits.write 16 HexText.hexChar 32 id.value.toNat := by
  unfold Uuid.text at h
  simp only [List.mem_append, List.mem_cons] at h
  rcases h with h | rfl | h | rfl | h | rfl | h | rfl | h
  · exact .inr (List.mem_of_mem_take h)
  · exact .inl rfl
  · exact .inr (List.mem_of_mem_drop (List.mem_of_mem_take h))
  · exact .inl rfl
  · exact .inr (List.mem_of_mem_drop (List.mem_of_mem_take h))
  · exact .inl rfl
  · exact .inr (List.mem_of_mem_drop (List.mem_of_mem_take h))
  · exact .inl rfl
  · exact .inr (List.mem_of_mem_drop h)

theorem plain_text {id : Uuid} {c : ℕ} (h : c ∈ id.text) : Plain c ∧ c ≠ 0x3A ∧ c ≠ 0x7B ∧ c ≠ 0x7D := by
  rcases mem_text h with rfl | h
  · unfold Plain
    decide
  · obtain ⟨d, hd, rfl⟩ := FixedDigits.mem_write (by decide) h
    exact ⟨(plain_hex d hd).1, (plain_hex d hd).2.2⟩

theorem text_length (id : Uuid) : id.text.length = 36 := by
  unfold Uuid.text
  simp only [List.length_append, List.length_cons, List.length_take, List.length_drop, FixedDigits.write_length]
  decide

/-- Without its hyphens, the text of an id is its digits. -/
theorem filter_text (id : Uuid) : id.text.filter (· ≠ 0x2D) = FixedDigits.write 16 HexText.hexChar 32 id.value.toNat := by
  have hkeep : ∀ l : PyStr, (∀ c ∈ l, c ∈ FixedDigits.write 16 HexText.hexChar 32 id.value.toNat) → l.filter (· ≠ 0x2D) = l := by
    intro l hl
    refine List.filter_eq_self.mpr fun c hc => ?_
    obtain ⟨d, hd, rfl⟩ := FixedDigits.mem_write (by decide) (hl c hc)
    exact decide_eq_true (plain_hex d hd).2.1
  unfold Uuid.text
  simp only [List.filter_append, List.filter_cons]
  rw [hkeep _ fun c hc => List.mem_of_mem_take hc, hkeep _ fun c hc => List.mem_of_mem_drop (List.mem_of_mem_take hc),
    hkeep _ fun c hc => List.mem_of_mem_drop (List.mem_of_mem_take hc),
    hkeep _ fun c hc => List.mem_of_mem_drop (List.mem_of_mem_take hc), hkeep _ fun c hc => List.mem_of_mem_drop hc]
  simp only [ne_eq, not_true_eq_false, decide_false, Bool.false_eq_true, if_false]
  generalize FixedDigits.write 16 HexText.hexChar 32 id.value.toNat = hex
  have h16 : hex.drop 20 = (hex.drop 16).drop 4 := by rw [List.drop_drop]
  have h12 : hex.drop 16 = (hex.drop 12).drop 4 := by rw [List.drop_drop]
  have h8 : hex.drop 12 = (hex.drop 8).drop 4 := by rw [List.drop_drop]
  rw [h16, List.take_append_drop, h12, List.take_append_drop, h8, List.take_append_drop, List.take_append_drop]

/-- Nothing that has a colon is found in a text that has none. -/
theorem removeAll_eq_self {found : PyStr} (hfound : 0x3A ∈ found) {text : PyStr} (h : 0x3A ∉ text) : removeAll found 0 text = text := by
  induction text with
  | nil => rw [removeAll]
  | cons c rest ih =>
    have hnot : ¬found <+: c :: rest := fun hp => h (hp.subset hfound)
    rw [removeAll, if_neg hnot, ih fun hm => h (List.mem_cons_of_mem c hm)]

/-- An id is read back from its text. -/
theorem ofText_text (id : Uuid) : Uuid.ofText id.text = some id := by
  have hcolon : 0x3A ∉ id.text := fun h => (plain_text h).2.1 rfl
  have hbrace : ∀ c ∈ id.text, (c == 0x7B || c == 0x7D) = false := by
    intro c hc
    obtain ⟨-, -, h1, h2⟩ := plain_text hc
    simp [h1, h2]
  have hlength : (FixedDigits.write 16 HexText.hexChar 32 id.value.toNat).length = 32 := FixedDigits.write_length 32 _
  have hne : FixedDigits.write 16 HexText.hexChar 32 id.value.toNat ≠ [] := List.ne_nil_of_length_eq_add_one hlength
  have hhex : ∀ c ∈ FixedDigits.write 16 HexText.hexChar 32 id.value.toNat, HexText.IsHex c := fun c hc =>
    FixedDigits.mem_write (by decide) hc
  have hlt : id.value.toNat < 16 ^ 32 := id.value.isLt
  unfold Uuid.ofText
  simp only [removeAll_eq_self (show 0x3A ∈ PyStr.ofString "urn:" by decide) hcolon,
    removeAll_eq_self (show 0x3A ∈ PyStr.ofString "uuid:" by decide) hcolon, HexText.strip_eq_self hbrace, filter_text]
  rw [if_neg (not_not.mpr hlength), HexText.parseInt_digits hne hhex, FixedDigits.value_write (by decide) HexText.hexDigit_char,
    Nat.mod_eq_of_lt hlt, Nat.zero_mul, Nat.zero_add]
  simp only [Option.map_some]
  rw [if_pos ⟨Int.natCast_nonneg _, by exact_mod_cast hlt⟩, BitVec.ofInt_natCast, BitVec.ofNat_toNat, BitVec.setWidth_eq]

/-! ### Tokens -/

theorem plain_dumps {t : Datetime} {id : Uuid} {c : ℕ} (h : c ∈ PageCursor.dumps (IsoFormat.isoformat t) id.text) : 0 < c ∧ c < 0x80 := by
  have hplain : ∀ {c : ℕ}, Plain c → 0 < c ∧ c < 0x80 := fun h => ⟨Nat.lt_trans (by decide) h.2.2.1, h.2.2.2⟩
  have hname : ∀ c ∈ PyStr.ofString "o" ++ PyStr.ofString "t", 0 < c ∧ c < 0x80 := by decide
  have hmark : ∀ c ∈ [0x7B, 0x22, 0x3A, 0x20, 0x2C, 0x7D], 0 < c ∧ c < 0x80 := by decide
  have hstring : ∀ s : PyStr, (∀ c ∈ s, 0 < c ∧ c < 0x80) → ∀ c ∈ JsonDecode.dumpsString s, 0 < c ∧ c < 0x80 := by
    intro s hs c hc
    unfold JsonDecode.dumpsString at hc
    simp only [List.mem_cons, List.mem_append, List.not_mem_nil, or_false] at hc
    rcases hc with rfl | hc | rfl
    · decide
    · exact hs c hc
    · decide
  unfold PageCursor.dumps at h
  simp only [List.mem_append, List.mem_cons, List.not_mem_nil, or_false] at h
  rcases h with rfl | h | rfl | rfl | h | rfl | rfl | h | rfl | rfl | h | rfl
  · decide
  · exact hstring _ (fun c hc => hname c (List.mem_append_left _ hc)) c h
  · decide
  · decide
  · exact hstring _ (fun c hc => hplain (plain_isoformat hc)) c h
  · decide
  · decide
  · exact hstring _ (fun c hc => hname c (List.mem_append_right _ hc)) c h
  · decide
  · decide
  · exact hstring _ (fun c hc => hplain (plain_text hc).1) c h
  · decide

theorem dumps_length (t : Datetime) (id : Uuid) : (PageCursor.dumps (IsoFormat.isoformat t) id.text).length ≤ 96 := by
  have hlen : ∀ s : PyStr, (JsonDecode.dumpsString s).length = s.length + 2 := by
    intro s
    simp [JsonDecode.dumpsString]
  have ho : (PyStr.ofString "o").length = 1 := by decide
  have ht : (PyStr.ofString "t").length = 1 := by decide
  have := IsoFormat.isoformat_length t
  unfold PageCursor.dumps
  simp only [List.length_cons, List.length_append, List.length_nil, hlen, text_length, ho, ht]
  omega

/-- The JSON of a cursor is read back. -/
theorem loads_dumps {parseFloat : Bool → PyStr → ℤ → Except LoadsError DecimalJson} (t : Datetime) (id : Uuid) (levels : ℕ) :
    JsonDecode.loadsWith parseFloat (levels + 1) ((PageCursor.dumps (IsoFormat.isoformat t) id.text).map UInt8.ofNat) =
      .ok (.obj [(PyStr.ofString "o", .str (IsoFormat.isoformat t)), (PyStr.ofString "t", .str id.text)]) := by
  have hplain : ∀ {c : ℕ}, Plain c → c ≠ 0x22 ∧ c ≠ 0x5C ∧ 0x1F < c := fun h => ⟨h.1, h.2.1, h.2.2.1⟩
  have ho : ∀ c ∈ PyStr.ofString "o", c ≠ 0x22 ∧ c ≠ 0x5C ∧ 0x1F < c := by decide
  have ht : ∀ c ∈ PyStr.ofString "t", c ≠ 0x22 ∧ c ≠ 0x5C ∧ 0x1F < c := by decide
  have hne : PyStr.ofString "o" ≠ PyStr.ofString "t" := by decide
  have hquote : ∀ s rest, JsonDecode.dumpsString s ++ rest = 0x22 :: (s ++ 0x22 :: rest) := by
    intro s rest
    simp [JsonDecode.dumpsString]
  have hspace : ∀ s rest, JsonDecode.skipSpace (0x20 :: (JsonDecode.dumpsString s ++ rest)) = JsonDecode.dumpsString s ++ rest := by
    intro s rest
    rw [JsonDecode.skipSpace_space, hquote, JsonDecode.skipSpace_cons (by decide)]
  have hascii : ∀ c ∈ PageCursor.dumps (IsoFormat.isoformat t) id.text, c < 0x80 := fun c hc => (plain_dumps hc).2
  unfold PageCursor.dumps at hascii ⊢
  rw [hquote] at hascii ⊢
  refine JsonDecode.loads_ascii (by decide) (by decide) (by decide) hascii (JsonDecode.scanOnce_object ?_)
  rw [← hquote, JsonDecode.scanEntries_string ho (fun c hc => hplain (plain_isoformat hc)) _ _ _ _ (by decide), if_neg (by decide),
    if_pos rfl, hspace, List.length_append, List.length_cons, ← Nat.add_assoc, Nat.add_right_comm,
    JsonDecode.scanEntries_string ht (fun c hc => hplain (plain_text hc).1) _ _ _ _ (by decide), if_pos rfl]
  simp only [JsonDecode.setEntry, if_neg hne]

theorem dumps_bytes (cursor : PageCursor) :
    ∀ b ∈ PageCursor.dumps (IsoFormat.isoformat cursor.occurredAt) cursor.transactionId.text, b < 256 :=
  fun _ hb => Nat.lt_trans (plain_dumps hb).2 (by decide)

/-- The payload of a token that was written. -/
theorem payload_encode (levels : ℕ) (cursor : PageCursor) :
    PageCursor.payload (levels + 1) cursor.encode =
      .ok (.obj [(PyStr.ofString "o", .str (IsoFormat.isoformat cursor.occurredAt)),
        (PyStr.ofString "t", .str cursor.transactionId.text)]) := by
  have hascii : cursor.encode.all (fun c => decide (c < 128)) = true := by
    refine List.all_eq_true.mpr fun c hc => decide_eq_true ?_
    exact ((Base64.unpad_encode_bounds (dumps_bytes cursor)).1 c hc).lt
  unfold PageCursor.payload
  rw [if_pos hascii]
  unfold PageCursor.encode
  rw [Base64.repad_unpad_encode (dumps_bytes cursor), Base64.decode_encode (dumps_bytes cursor)]
  simp only [loads_dumps]

/-- A cursor is read back from its token. -/
theorem decode_encode (levels : ℕ) {cursor : PageCursor} (h : IsoFormat.Readable cursor.occurredAt) :
    PageCursor.decode (levels + 1) cursor.encode = .ok cursor := by
  have ho : ∀ v : DecimalJson, ∀ entries, DecimalJson.lookup ((PyStr.ofString "o", v) :: entries) "o" = some v := by
    intro v entries
    simp [DecimalJson.lookup]
  have ht : ∀ v w : DecimalJson, DecimalJson.lookup [(PyStr.ofString "o", v), (PyStr.ofString "t", w)] "t" = some w := by
    intro v w
    have hne : (PyStr.ofString "o" == PyStr.ofString "t") = false := by decide
    simp [DecimalJson.lookup, List.find?, hne]
  unfold PageCursor.decode
  rw [payload_encode, Except.ok_bind]
  unfold PageCursor.ofPayload
  simp only [ho, ht, IsoFormat.fromisoformat_isoformat h, ofText_text]

/-- A token is not empty, and has at most 128 characters. -/
theorem encode_length (cursor : PageCursor) : cursor.encode ≠ [] ∧ cursor.encode.length ≤ 128 := by
  have hlen := dumps_length cursor.occurredAt cursor.transactionId
  have hle := (Base64.unpad_encode_bounds (dumps_bytes cursor)).2
  constructor
  · intro h0
    have h1 := Base64.decode_encode (dumps_bytes cursor)
    rw [← Base64.repad_unpad_encode (dumps_bytes cursor)] at h1
    unfold PageCursor.encode at h0
    rw [h0] at h1
    cases h1
  · unfold PageCursor.encode
    omega

end CursorAux

end FraudDetection
