/-!
# Decoding a stream that arrives in pieces

A `Decoder` takes items off the front of a buffer. A reader that is handed
the input read by read (`feed`) appends each read to what is left and decodes
until the decoder asks for more or fails.

`feed_eq_drain`: if the decoder is `Stable`, that is, if no decision it takes
is changed by bytes that arrive later, then the cuts between the reads do not
matter. The outcome is that of decoding the whole input at once.
-/

structure Decoder (β ε α : Type) where
  decode : List β → Except ε (Option α) × List β
  /-- A decoded item takes at least one element off the buffer. -/
  progress : ∀ {buf a rest}, decode buf = (.ok (some a), rest) → rest.length < buf.length

namespace Decoder

/-- The items decoded, the error that stopped the reader if there was one,
and the input not consumed. -/
structure Outcome (β ε α : Type) where
  items : List α
  error : Option ε
  rest : List β
  deriving DecidableEq

def Outcome.prepend (items : List α) (o : Outcome β ε α) : Outcome β ε α :=
  { o with items := items ++ o.items }

/-- Decode until the decoder asks for more input or fails. -/
def drain (d : Decoder β ε α) (buf : List β) : Outcome β ε α :=
  match _h : d.decode buf with
  | (.ok none, rest) => ⟨[], none, rest⟩
  | (.ok (some a), rest) => (d.drain rest).prepend [a]
  | (.error e, rest) => ⟨[], some e, rest⟩
termination_by buf.length
decreasing_by exact d.progress _h

/-- The reader on a list of reads, starting with `buf` in its buffer. -/
def feed (d : Decoder β ε α) (buf : List β) : List (List β) → Outcome β ε α
  | [] => ⟨[], none, buf⟩
  | read :: reads =>
    let o := d.drain (buf ++ read)
    match o.error with
    | some _ => { o with rest := o.rest ++ reads.flatten }
    | none => (d.feed o.rest reads).prepend o.items

structure Stable (d : Decoder β ε α) : Prop where
  keeps_buf : ∀ {buf rest}, d.decode buf = (.ok none, rest) → rest = buf
  keeps_item : ∀ {buf a rest} more, d.decode buf = (.ok (some a), rest) →
    d.decode (buf ++ more) = (.ok (some a), rest ++ more)
  keeps_error : ∀ {buf e rest} more, d.decode buf = (.error e, rest) →
    d.decode (buf ++ more) = (.error e, rest ++ more)

section
variable {d : Decoder β ε α} {buf rest : List β}

theorem drain_none (h : d.decode buf = (.ok none, rest)) : d.drain buf = ⟨[], none, rest⟩ := by
  rw [drain]; split <;> simp_all

theorem drain_some (h : d.decode buf = (.ok (some a), rest)) :
    d.drain buf = (d.drain rest).prepend [a] := by
  rw [drain]; split <;> simp_all

theorem drain_error (h : d.decode buf = (.error e, rest)) : d.drain buf = ⟨[], some e, rest⟩ := by
  rw [drain]; split <;> simp_all

theorem Stable.drain_stuck (hs : d.Stable) (h : (d.drain buf).error = none) :
    d.decode (d.drain buf).rest = (.ok none, (d.drain buf).rest) := by
  fun_induction drain d buf with
  | case1 buf rest hd => rw [← hs.keeps_buf hd] at hd; exact hd
  | case2 buf a rest hd ih => exact ih h
  | case3 => cases h

/-- Input that arrives after an error is not looked at. -/
theorem Stable.drain_append_error (hs : d.Stable) (more : List β)
    (h : (d.drain buf).error = some e) :
    d.drain (buf ++ more) = { d.drain buf with rest := (d.drain buf).rest ++ more } := by
  fun_induction drain d buf with
  | case1 => cases h
  | case2 buf a rest hd ih => rw [drain_some (hs.keeps_item more hd), ih h]; rfl
  | case3 buf e' rest hd => rw [drain_error (hs.keeps_error more hd)]

/-- Without an error, later input resumes the decoding where it stopped. -/
theorem Stable.drain_append (hs : d.Stable) (more : List β) (h : (d.drain buf).error = none) :
    d.drain (buf ++ more) =
      (d.drain ((d.drain buf).rest ++ more)).prepend (d.drain buf).items := by
  fun_induction drain d buf with
  | case1 buf rest hd => rw [hs.keeps_buf hd]; rfl
  | case2 buf a rest hd ih => rw [drain_some (hs.keeps_item more hd), ih h]; rfl
  | case3 => cases h

/-- The cuts between the reads do not matter. -/
theorem Stable.feed_eq_drain (hs : d.Stable) (reads : List (List β))
    (hbuf : d.decode buf = (.ok none, buf)) :
    d.feed buf reads = d.drain (buf ++ reads.flatten) := by
  induction reads generalizing buf with
  | nil => simp [feed, drain_none hbuf]
  | cons read reads ih =>
    rw [List.flatten_cons, ← List.append_assoc]
    cases he : (d.drain (buf ++ read)).error with
    | some e => simp only [feed, he, hs.drain_append_error reads.flatten he]
    | none => simp only [feed, he, ih (hs.drain_stuck he), hs.drain_append reads.flatten he]

end

end Decoder
