import Patchbay.Proofs.Config.Reading

/-! # Times read back

A time that was read, from a text or from a number of a document, is written as a number of seconds
and the letter s.  Read again, that text is the same time, bit for bit, also where the time is a
negative zero or close to the longest span. -/

namespace Patchbay.Config.Seconds

open Duration (Lasts)

variable {s : Seconds}

/-- The time was read, from a text or from a value of a document. -/
def Returned (s : Seconds) : Prop := (∃ text, read text = .ok s) ∨ ∃ found, decode found = .ok s

/-- The text of a time is a number with the unit of seconds. -/
theorem spells_text (h : s.Fits) : Spells units s.text s.value := by
  obtain ⟨q, hq⟩ := h
  have hnumeral := Decimal.numeral_plain hq.isFinite
  have hself : s.value / 1.0 = s.value := hq.exact.div_one
  have hunit : (['s'], 1.0) ∈ units := by simp [units]
  have hlasts : ∃ q, Lasts (s.value / 1.0) q := by
    rw [hself]
    exact ⟨q, hq⟩
  have hknown : (['s'], 1.0) ∈ units ++ shortUnits := List.mem_append_left _ hunit
  obtain ⟨hvisible, -⟩ := not_isBlank_numeral hnumeral hknown hlasts
  have htext : s.text.toList = (Decimal.plain s.value).toList ++ ['s'] := String.toList_append
  have hblanks : ∀ c ∈ ([] : List Char), Text.isBlank c :=
    fun c hc => absurd hc List.not_mem_nil
  have htrim : Text.trimList s.text.toList = s.text.toList := by
    have hall : ∀ c ∈ s.text.toList, Text.isBlank c = false := by
      rw [htext, List.forall_mem_append, List.forall_mem_singleton]
      exact ⟨hvisible, by rfl⟩
    have hnone := Text.trimList_append_blanks hall hblanks
    rwa [List.append_nil] at hnone
  refine ⟨_, [], ['s'], s.value, 1.0, hunit, hnumeral, hblanks, ?_, hself.symm⟩
  rw [htrim, htext, List.append_nil]

theorem read_text_iff : read s.text = .ok s ↔ s.Fits :=
  ⟨fits_of_read, fun h => (read_eq_ok_iff_spells s.text s.value).mpr ⟨.inl (spells_text h), h⟩⟩

theorem returned_iff : s.Returned ↔ s.Fits := by
  constructor
  · rintro (⟨text, h⟩ | ⟨found, h⟩)
    · exact fits_of_read h
    · exact fits_of_decode h
  · exact fun h => .inl ⟨s.text, read_text_iff.mpr h⟩

theorem fits_iff : s.Fits ↔ ∃ n, Duration.ofSeconds? s.value = some n := by
  constructor
  · rintro ⟨q, hq⟩
    obtain ⟨n, hn, -⟩ := hq.exists_span
    exact ⟨n, hn⟩
  · rintro ⟨n, hn⟩
    obtain ⟨q, hq, -⟩ := Duration.ofSeconds?_eq_some_iff.mp hn
    exact ⟨q, hq⟩

/-- Neither the bound at zero nor the one at the longest span changes the span of such a time. -/
theorem Fits.span_eq (h : s.Fits) : Single.larger s.value 0.0 = s.value ∧
    Duration.ofSeconds? s.value = some s.span ∧ s.span < Duration.longest := by
  obtain ⟨q, hq⟩ := h
  obtain ⟨n, hn, -⟩ := hq.exists_span
  have hlarger := Single.larger_zero hq.exact hq.nonneg
  refine ⟨hlarger, ?_, span_lt_longest hq⟩
  unfold span
  rw [hlarger, hn, Option.getD_some]

/-- The times that are read are the finite ones, not negative, that a duration can hold.  Each of
them is read back from its text, and its span is the one that a duration holds for it. -/
theorem text_reads_back (s : Seconds) :
    (s.Returned ↔ s.value.isFinite ∧ ¬ s.value < 0.0 ∧
      ∃ n, Duration.ofSeconds? s.value = some n) ∧
    (s.Returned → (read s.text = .ok s ∧ decode (.string s.text) = .ok s) ∧
      Single.larger s.value 0.0 = s.value ∧ Duration.ofSeconds? s.value = some s.span ∧
      s.span < Duration.longest) := by
  constructor
  · rw [returned_iff]
    refine ⟨fun h => ?_, fun h => fits_iff.mpr h.2.2⟩
    obtain ⟨q, hq⟩ := h
    exact ⟨hq.isFinite, hq.not_negative, fits_iff.mp ⟨q, hq⟩⟩
  · intro h
    have hfits := returned_iff.mp h
    have hread := read_text_iff.mpr hfits
    have hdecode : decode (.string s.text) = .ok s := by
      rw [decode, hread]
      rfl
    exact ⟨⟨hread, hdecode⟩, hfits.span_eq⟩

/-- Minus zero keeps its sign, and the longest time that is read is the largest number below `2^64`
seconds. -/
theorem text_reads_back_negative_zero :
    let zero : Seconds := ⟨-0.0⟩
    let last : Seconds := ⟨.ofBits 0x5f7fffff⟩
    (read " -0 ms" = .ok zero ∧ decode (.float 18446742974197923840.0) = .ok last) ∧
      (read zero.text = .ok zero ∧ Duration.ofSeconds? zero.value = some zero.span) ∧
      read last.text = .ok last ∧ Duration.ofSeconds? last.value = some last.span := by
  intro zero last
  have hzero : read " -0 ms" = .ok zero := by decide +kernel
  have hlast : decode (.float 18446742974197923840.0) = .ok last := by decide +kernel
  obtain ⟨⟨hread, -⟩, -, hspan, -⟩ := (text_reads_back zero).2 (.inl ⟨_, hzero⟩)
  obtain ⟨⟨hread', -⟩, -, hspan', -⟩ := (text_reads_back last).2 (.inr ⟨_, hlast⟩)
  exact ⟨⟨hzero, hlast⟩, ⟨hread, hspan⟩, hread', hspan'⟩

end Patchbay.Config.Seconds
