import BitPattern.Proofs.Text.Escape

/-!
# Where decoded characters come from

The characters that the body of a string literal denotes come from characters of the body: a byte
that stands for itself from the character it is a byte of, and one that an escape stands for from
the first character of the escape.  `trace` decodes a body and keeps these offsets beside the code
points, and `sourceOffset` is the offset that belongs to a decoded one.

The two offsets are the same as long as the body is written in ASCII without a backslash
(`sourceOffset_eq_self`), and a body that is written so throughout denotes itself
(`latin_of_verbatim`).  An escape moves the offsets apart in one direction, a character of several
bytes in the other.
-/

namespace BitPattern.Text

/-! ## Bytes with their characters -/

/-- The UTF-8 bytes of a text as characters, each with the offset of the character that it is a byte
of; the offsets are counted from a given one. -/
def byteMarks : Nat → List Char → List (Char × Nat)
  | _, [] => []
  | i, c :: cs => (String.utf8EncodeChar c).map (fun b => (latinChar b, i)) ++ byteMarks (i + 1) cs

@[simp] lemma byteMarks_fst (i : Nat) (cs : List Char) :
    (byteMarks i cs).map Prod.fst = (utf8Bytes cs).map latinChar := by
  rw [utf8Bytes_eq_flatMap]
  induction cs generalizing i with
  | nil => rfl
  | cons c cs ih =>
      rw [byteMarks, List.map_append, ih, List.flatMap_cons, List.map_append, List.map_map]
      rfl

lemma length_byteMarks (i : Nat) (cs : List Char) :
    (byteMarks i cs).length = (utf8Bytes cs).length := by
  rw [← List.length_map Prod.fst, byteMarks_fst, List.length_map]

/-- The offsets are those of the characters of the text. -/
lemma lt_of_mem_byteMarks {i : Nat} {cs : List Char} {m : Char × Nat} (hm : m ∈ byteMarks i cs) :
    m.2 < i + cs.length := by
  induction cs generalizing i with
  | nil => cases hm
  | cons c cs ih =>
      rw [List.length_cons]
      rcases List.mem_append.mp hm with hc | hcs
      · obtain ⟨b, -, rfl⟩ := List.mem_map.mp hc
        exact Nat.lt_add_of_pos_right (Nat.succ_pos _)
      · have := ih hcs
        omega

/-- A character of ASCII is its only byte. -/
lemma byteMarks_cons_of_ascii {c : Char} (h : c.toNat < 0x80) (i : Nat) (cs : List Char) :
    byteMarks i (c :: cs) = (c, i) :: byteMarks (i + 1) cs := by
  rw [byteMarks, utf8EncodeChar_of_ascii h, List.map_singleton, latinChar_ofNat h,
    List.singleton_append]

/-! ## Escapes -/

/-- An escape takes a character at least and stands for at most two code points, and for none only
where it continues a line. -/
lemma escape?_eq_some {cs left : List Char} {points : List Nat}
    (h : escape? cs = some (points, left)) :
    left <:+ cs ∧ points.length ≤ 2 ∧ cs ≠ [] ∧ (points = [] → cs.head? = some '\n') := by
  cases cs with
  | nil => cases h
  | cons c rest =>
      rw [escape?] at h
      split at h
      · -- The line goes on: nothing is denoted.
        rename_i hline
        cases h
        exact ⟨List.suffix_cons _ _, by simp, by simp, fun _ => congrArg some (eq_of_beq hline)⟩
      · split at h
        · cases h
        · split at h
          · cases h
            exact ⟨List.suffix_cons _ _, by simp, by simp, by simp⟩
          · -- Digits of a fixed number.
            rename_i width _ _
            split at h
            · cases h
            · obtain ⟨n, -, h⟩ := Option.bind_eq_some_iff.mp h
              split at h
              · cases h
                exact ⟨(List.drop_suffix width rest).trans (List.suffix_cons c rest), by simp,
                  by simp, by simp⟩
              · cases h
          · split at h
            · -- Up to three octal digits.
              rename_i e tail
              have htail : tail <:+ c :: e :: tail := ⟨[c, e], rfl⟩
              split at h
              · cases h
                exact ⟨List.suffix_cons _ _, by simp, by simp, by simp⟩
              · split at h
                · rename_i f last
                  split at h
                  · cases h
                    exact ⟨htail, by simp, by simp, by simp⟩
                  · cases h
                    exact ⟨⟨[c, e, f], rfl⟩, by simp, by simp, by simp⟩
                · cases h
                  exact ⟨htail, by simp, by simp, by simp⟩
            · cases h
              exact ⟨List.suffix_cons _ _, by simp, by simp, by simp⟩
          · cases h
            exact ⟨List.suffix_cons _ _, by simp, by simp, by simp⟩

/-! ## Decoding -/

/-- The code points that marked characters with escapes stand for, each with the mark of the
character that it comes from.  A backslash that stands for itself, and what follows it, keep their
own marks. -/
def traceWithin : Nat → List (Char × Nat) → Option (List (Nat × Nat))
  | _, [] => some []
  | 0, _ :: _ => none
  | steps + 1, (c, i) :: rest =>
    if c == '\\' then
      (escape? (rest.map Prod.fst)).bind fun (points, left) =>
        (traceWithin steps (rest.drop (rest.length - left.length))).map
          (points.zip (i :: rest.map Prod.snd) ++ ·)
    else (traceWithin steps rest).map ((c.toNat, i) :: ·)

/-- The code points that the body of a string literal denotes, each with the offset of the character
that it comes from. -/
def trace (body : List Char) : Option (List (Nat × Nat)) :=
  traceWithin (byteMarks 0 body).length (byteMarks 0 body)

/-- The offset of the character of a body that a decoded one comes from.  Behind the last of them is
the quote that ends the literal. -/
def sourceOffset (body : List Char) (k : Nat) : Nat :=
  (((trace body).getD [])[k]?).elim body.length Prod.snd

/-- Without its marks a trace is what is decoded. -/
lemma traceWithin_fst (steps : Nat) (ms : List (Char × Nat)) :
    (traceWithin steps ms).map (List.map Prod.fst) = unescapeWithin steps (ms.map Prod.fst) := by
  induction steps generalizing ms with
  | zero => cases ms <;> rfl
  | succ steps ih =>
      cases ms with
      | nil => rfl
      | cons m rest =>
          obtain ⟨c, i⟩ := m
          rw [List.map_cons, traceWithin, unescapeWithin]
          by_cases hc : (c == '\\') = true
          · rw [if_pos hc, if_pos hc]
            cases hescape : escape? (rest.map Prod.fst) with
            | none => rfl
            | some r =>
                obtain ⟨points, left⟩ := r
                obtain ⟨hleft, htwo, hne, -⟩ := escape?_eq_some hescape
                have hrest : (rest.drop (rest.length - left.length)).map Prod.fst = left := by
                  have hdrop := List.suffix_iff_eq_drop.mp hleft
                  rwa [List.length_map, ← List.map_drop, eq_comm] at hdrop
                -- Two code points have marks: the backslash and one that the escape took.
                have hpoints : points.length ≤ (i :: rest.map Prod.snd).length := by
                  have hpos : 0 < rest.length := by
                    simpa [List.length_pos_iff] using hne
                  rw [List.length_cons, List.length_map]
                  omega
                have hunescape := ih (rest.drop (rest.length - left.length))
                rw [hrest] at hunescape
                simp only [Option.bind_some, Option.map_map, ← hunescape]
                congr 1
                funext ps
                simp [List.map_fst_zip hpoints]
          · rw [if_neg hc, if_neg hc, ← ih, Option.map_map, Option.map_map]
            rfl

/-- What a body denotes are the code points that it is decoded to. -/
lemma exists_trace {body : List Char} {bytes : List UInt8} (h : literalBytes? body = some bytes) :
    ∃ ps, trace body = some ps ∧ ps.map Prod.fst = bytes.map UInt8.toNat := by
  obtain ⟨points, hpoints, hbytes⟩ := Option.bind_eq_some_iff.mp h
  split at hbytes
  · rename_i hall
    cases hbytes
    rw [unescape, List.length_map, ← length_byteMarks 0, ← byteMarks_fst 0, ← traceWithin_fst]
      at hpoints
    obtain ⟨ps, hps, rfl⟩ := Option.map_eq_some_iff.mp hpoints
    refine ⟨ps, hps, ?_⟩
    have hback : ∀ n ∈ ps.map Prod.fst, (UInt8.toNat ∘ UInt8.ofNat) n = id n := fun n hn => by
      have hbyte := of_decide_eq_true (List.all_eq_true.mp hall n hn)
      rw [Function.comp_apply, UInt8.toNat_ofNat', id]
      omega
    rw [List.map_map, List.map_congr_left hback, List.map_id]
  · cases hbytes

/-- Every decoded character comes from a marked one. -/
lemma snd_mem_of_traceWithin {steps : Nat} {ms : List (Char × Nat)} {ps : List (Nat × Nat)}
    (h : traceWithin steps ms = some ps) : ∀ p ∈ ps, p.2 ∈ ms.map Prod.snd := by
  induction steps generalizing ms ps with
  | zero =>
      cases ms with
      | nil => cases h; exact fun p hp => nomatch hp
      | cons m rest => cases h
  | succ steps ih =>
      cases ms with
      | nil => cases h; exact fun p hp => nomatch hp
      | cons m rest =>
          obtain ⟨c, i⟩ := m
          rw [traceWithin] at h
          intro p hp
          split at h
          · obtain ⟨⟨points, left⟩, -, h⟩ := Option.bind_eq_some_iff.mp h
            obtain ⟨qs, hqs, rfl⟩ := Option.map_eq_some_iff.mp h
            rcases List.mem_append.mp hp with hp | hp
            · exact (List.of_mem_zip hp).2
            · obtain ⟨m, hm, hsnd⟩ := List.mem_map.mp (ih hqs p hp)
              exact .tail _ (List.mem_map.mpr ⟨m, List.mem_of_mem_drop hm, hsnd⟩)
          · obtain ⟨qs, hqs, rfl⟩ := Option.map_eq_some_iff.mp h
            rcases List.mem_cons.mp hp with rfl | hp
            · exact .head _
            · exact .tail _ (ih hqs p hp)

/-- A decoded character comes from inside the body, or the end is meant. -/
lemma sourceOffset_le (body : List Char) (k : Nat) : sourceOffset body k ≤ body.length := by
  unfold sourceOffset
  cases hp : ((trace body).getD [])[k]? with
  | none => exact Nat.le_refl _
  | some p =>
      cases htrace : trace body with
      | none => simp [htrace] at hp
      | some ps =>
          rw [htrace] at hp
          obtain ⟨m, hm, hsnd⟩ := List.mem_map.mp
            (snd_mem_of_traceWithin htrace p (List.mem_of_getElem? hp))
          have hlt := lt_of_mem_byteMarks hm
          simp only [Option.elim_some]
          omega

/-! ## Verbatim text -/

/-- A character that is decoded to itself: one of ASCII that begins no escape. -/
def isVerbatim (c : Char) : Bool :=
  c.toNat < 0x80 && c != '\\'

/-- Verbatim text is decoded character by character. -/
lemma traceWithin_verbatim {cs : List Char} (h : ∀ c ∈ cs, isVerbatim c = true) (i n : Nat)
    (more : List Char) :
    ∃ qs : List (Nat × Nat), qs.map Prod.fst = cs.map Char.toNat ∧
      qs.map Prod.snd = List.range' i cs.length ∧
        traceWithin (cs.length + n) (byteMarks i (cs ++ more)) =
          (traceWithin n (byteMarks (i + cs.length) more)).map (qs ++ ·) := by
  induction cs generalizing i with
  | nil => exact ⟨[], rfl, rfl, by simp⟩
  | cons c cs ih =>
      obtain ⟨qs, hpoints, hqs, heq⟩ := ih (fun d hd => h d (.tail _ hd)) (i + 1)
      have hc := h c (.head _)
      simp only [isVerbatim, Bool.and_eq_true, decide_eq_true_eq, bne_iff_ne, ne_eq] at hc
      have hsteps : (c :: cs).length + n = cs.length + n + 1 := by
        rw [List.length_cons]
        omega
      have hoffset : i + (c :: cs).length = i + 1 + cs.length := by
        rw [List.length_cons]
        omega
      refine ⟨(c.toNat, i) :: qs, by rw [List.map_cons, hpoints, List.map_cons], ?_, ?_⟩
      · rw [List.map_cons, hqs, List.length_cons, List.range'_succ]
      · rw [List.cons_append, byteMarks_cons_of_ascii hc.1, hsteps, traceWithin,
          if_neg (by simpa using hc.2), heq, hoffset, Option.map_map]
        rfl

/-- The first decoded character comes from the first marked one, unless a line is continued. -/
lemma traceWithin_head {steps i : Nat} {c : Char} {rest : List (Char × Nat)} {ps : List (Nat × Nat)}
    (h : traceWithin steps ((c, i) :: rest) = some ps)
    (hline : c = '\\' → (rest.map Prod.fst).head? ≠ some '\n') :
    ∃ n qs, ps = (n, i) :: qs := by
  cases steps with
  | zero => cases h
  | succ steps =>
      rw [traceWithin] at h
      split at h
      · rename_i hc
        obtain ⟨⟨points, left⟩, hescape, h⟩ := Option.bind_eq_some_iff.mp h
        obtain ⟨qs, -, rfl⟩ := Option.map_eq_some_iff.mp h
        cases points with
        | nil => exact absurd ((escape?_eq_some hescape).2.2.2 rfl) (hline (eq_of_beq hc))
        | cons n points => exact ⟨n, _, rfl⟩
      · obtain ⟨qs, -, rfl⟩ := Option.map_eq_some_iff.mp h
        exact ⟨c.toNat, qs, rfl⟩

/-- A text begins with a byte of its first character, which is all of it if it is in ASCII. -/
lemma byteMarks_eq_cons (i : Nat) (c : Char) (cs : List Char) :
    ∃ d rest, byteMarks i (c :: cs) = (d, i) :: rest ∧
      (d.toNat < 0x80 → d = c ∧ rest = byteMarks (i + 1) cs) := by
  by_cases hc : c.toNat < 0x80
  · exact ⟨c, _, byteMarks_cons_of_ascii hc i cs, fun _ => ⟨rfl, rfl⟩⟩
  · cases hbytes : String.utf8EncodeChar c with
    | nil => exact absurd hbytes String.utf8EncodeChar_ne_nil
    | cons b bs =>
        have hle : 0x80 ≤ b.toNat :=
          le_of_mem_utf8EncodeChar (Nat.not_lt.mp hc) (hbytes ▸ List.mem_cons_self)
        refine ⟨latinChar b, bs.map (fun b => (latinChar b, i)) ++ byteMarks (i + 1) cs, ?_, ?_⟩
        · rw [byteMarks, hbytes, List.map_cons, List.cons_append]
        · intro hlt
          rw [toNat_latinChar] at hlt
          omega

/-- The marks of a text begin with a line feed only if the text does. -/
lemma head?_byteMarks {i : Nat} {cs : List Char}
    (h : ((byteMarks i cs).map Prod.fst).head? = some '\n') : cs.head? = some '\n' := by
  cases cs with
  | nil => cases h
  | cons c cs =>
      obtain ⟨d, rest, hmarks, hascii⟩ := byteMarks_eq_cons i c cs
      rw [hmarks, List.map_cons, List.head?_cons] at h
      obtain rfl : d = '\n' := Option.some.inj h
      rw [List.head?_cons, ← (hascii (by decide)).1]

/-- The first decoded character comes from the first one, unless a line is continued. -/
lemma trace_head {steps i : Nat} {c : Char} {cs : List Char} {ps : List (Nat × Nat)}
    (h : traceWithin steps (byteMarks i (c :: cs)) = some ps)
    (hline : ∀ rest, c :: cs ≠ '\\' :: '\n' :: rest) : ∃ n qs, ps = (n, i) :: qs := by
  obtain ⟨d, rest, hmarks, hascii⟩ := byteMarks_eq_cons i c cs
  rw [hmarks] at h
  refine traceWithin_head h ?_
  rintro rfl hnewline
  obtain ⟨rfl, rfl⟩ := hascii (by decide)
  obtain ⟨rest, rfl⟩ := List.head?_eq_some_iff.mp (head?_byteMarks hnewline)
  exact hline rest rfl

/-- A trace begins with the verbatim text that the body begins with. -/
lemma trace_of_verbatim {body : List Char} {ps : List (Nat × Nat)} (htrace : trace body = some ps)
    {k : Nat} (hverbatim : ∀ c ∈ body.take k, isVerbatim c = true) :
    ∃ (qs rs : List (Nat × Nat)) (n : Nat), ps = qs ++ rs ∧
      qs.map Prod.fst = (body.take k).map Char.toNat ∧ qs.length = (body.take k).length ∧
        traceWithin n (byteMarks (body.take k).length (body.drop k)) = some rs := by
  have hsteps : (body.take k).length ≤ (byteMarks 0 body).length := by
    have hbytes := length_le_utf8Bytes body
    rw [length_byteMarks, List.length_take]
    omega
  obtain ⟨n, hn⟩ := Nat.exists_eq_add_of_le hsteps
  obtain ⟨qs, hpoints, hoffsets, heq⟩ := traceWithin_verbatim hverbatim 0 n (body.drop k)
  rw [List.take_append_drop, ← hn, Nat.zero_add, ← trace, htrace] at heq
  obtain ⟨rs, hrs, rfl⟩ := Option.map_eq_some_iff.mp heq.symm
  exact ⟨qs, rs, n, rfl, hpoints, by simpa using congrArg List.length hoffsets, hrs⟩

/-- Behind verbatim text a decoded character stands where it stands in the body. -/
theorem sourceOffset_eq_self {body : List Char} {bytes : List UInt8}
    (hbody : literalBytes? body = some bytes) {k : Nat} (hk : k ≤ bytes.length)
    (hverbatim : ∀ c ∈ body.take k, isVerbatim c = true)
    (hline : ∀ rest, body.drop k ≠ '\\' :: '\n' :: rest) : sourceOffset body k = k := by
  obtain ⟨ps, htrace, hpoints⟩ := exists_trace hbody
  have hlength : ps.length = bytes.length := by
    simpa using congrArg List.length hpoints
  obtain ⟨qs, rs, n, rfl, -, hqs, hrs⟩ := trace_of_verbatim htrace hverbatim
  rw [sourceOffset, htrace, Option.getD_some]
  cases hpost : body.drop k with
  | nil =>
      -- The decoded text ends with the body.
      rw [hpost] at hrs
      obtain rfl : rs = [] := by
        cases n <;> exact (Option.some.inj hrs).symm
      have hle : body.length ≤ k := List.drop_eq_nil_iff.mp hpost
      rw [List.append_nil] at hlength ⊢
      rw [List.length_take] at hqs
      rw [List.getElem?_eq_none (by omega), Option.elim_none]
      omega
  | cons c cs =>
      have hlt : k < body.length := by
        by_contra hle
        rw [List.drop_eq_nil_of_le (Nat.not_lt.mp hle)] at hpost
        cases hpost
      rw [List.length_take, Nat.min_eq_left (Nat.le_of_lt hlt)] at hqs hrs
      rw [hpost] at hrs hline
      obtain ⟨m, rs, rfl⟩ := trace_head hrs hline
      rw [List.getElem?_append_right (Nat.le_of_eq hqs), hqs, Nat.sub_self]
      rfl

/-- Verbatim text denotes itself. -/
theorem latin_of_verbatim {body : List Char} {bytes : List UInt8}
    (hbody : literalBytes? body = some bytes) (hverbatim : ∀ c ∈ body, isVerbatim c = true) :
    (latin bytes).toList = body := by
  obtain ⟨ps, htrace, hpoints⟩ := exists_trace hbody
  obtain ⟨qs, rs, n, rfl, hqs, -, hrs⟩ := trace_of_verbatim (k := body.length) htrace
    (by rwa [List.take_length])
  rw [List.drop_length] at hrs
  obtain rfl : rs = [] := by
    cases n <;> exact (Option.some.inj hrs).symm
  rw [List.append_nil, hqs, List.take_length] at hpoints
  have hlatin : bytes.map latinChar = (bytes.map UInt8.toNat).map Char.ofNat := by
    rw [List.map_map]
    rfl
  have hback : Char.ofNat ∘ Char.toNat = id := funext Char.ofNat_toNat
  rw [latin, String.toList_ofList, hlatin, ← hpoints, List.map_map, hback, List.map_id]

end BitPattern.Text
