import NetNexus.Ftp.Receiver
import NetNexus.Node.Proofs.BufferProofs

/-!
# The lines of an FTP stream

What is kept between two calls is what follows the last line that has ended. It is decoded and
encoded again when a line ends, so that a character that is cut there is lost.
-/

namespace Ftp

open List Node Node.Path

/-! ## Lines -/

theorem splitLines_of_nil {text : Text} (h : (splitLines text).1 = []) :
    (splitLines text).2 = text := by
  fun_induction splitLines text with
  | case1 | case2 => rfl
  | case3 => cases h
  | case4 c d _ _ _ hrest ih =>
    rw [hrest] at ih
    exact congrArg (c :: ·) (ih rfl)
  | case5 => cases h

/-- Lines that have ended stay as they are, and the last part goes on. -/
theorem splitLines_append (text more : Text) : splitLines (text ++ more) =
    ((splitLines text).1 ++ (splitLines ((splitLines text).2 ++ more)).1,
      (splitLines ((splitLines text).2 ++ more)).2) := by
  fun_induction splitLines text with
  | case1 | case2 => rfl
  | case3 c d _ hcrlf ih => rw [cons_append, cons_append, splitLines, if_pos hcrlf, ih, cons_append]
  | case4 c d _ _ _ hrest _ =>
    have hlast := splitLines_of_nil (congrArg Prod.fst hrest)
    rw [hrest] at hlast
    rw [← hlast]
    rfl
  | case5 c d _ hcrlf _ _ _ hrest ih =>
    rw [hrest, cons_append] at ih
    rw [cons_append, cons_append, splitLines, if_neg hcrlf, ih]
    rfl

/-- The parts of a text with `front` before it, if no line ends in `front` or where it ends. -/
def prepend (front : Text) : List Text × Text → List Text × Text
  | ([], last) => ([], front ++ last)
  | (line :: lines, last) => ((front ++ line) :: lines, last)

theorem prepend_prepend (front middle : Text) (parts : List Text × Text) :
    prepend front (prepend middle parts) = prepend (front ++ middle) parts := by
  rcases parts with ⟨_ | ⟨_, _⟩, _⟩ <;> simp [prepend]

theorem prepend_eq_nil {front : Text} {parts : List Text × Text} :
    (prepend front parts).1 = [] ↔ parts.1 = [] := by
  rcases parts with ⟨_ | ⟨_, _⟩, _⟩ <;> simp [prepend]

theorem splitLines_cons {c : Char} {text : Text} (h : c = '\r' → text.head? ≠ some '\n') :
    splitLines (c :: text) = prepend [c] (splitLines text) := by
  cases text with
  | nil => rfl
  | cons d text =>
    have hno : ¬ (c = '\r' ∧ d = '\n') := fun ⟨hc, hd⟩ => h hc (congrArg some hd)
    rw [splitLines, if_neg hno]
    rfl

/-- A text without a line and a character that is no part of the end of one belong to the line that
follows them. -/
theorem splitLines_between {front text : Text} {x : Char} (hfront : (splitLines front).1 = [])
    (hcr : x ≠ '\r') (hlf : x ≠ '\n') :
    splitLines (front ++ x :: text) = prepend (front ++ [x]) (splitLines text) := by
  induction front with
  | nil => exact splitLines_cons fun hx => absurd hx hcr
  | cons c front ih =>
    have hc : c = '\r' → front.head? ≠ some '\n' := by
      rintro rfl hhead
      obtain ⟨rest, rfl⟩ := head?_eq_some_iff.mp hhead
      cases hfront
    rw [splitLines_cons hc, prepend_eq_nil] at hfront
    rw [cons_append, splitLines_cons, ih hfront, prepend_prepend]
    · rfl
    · intro hcr
      cases front with
      | nil => exact fun hhead => hlf (Option.some.inj hhead)
      | cons => exact hc hcr

theorem splitLines_snd (text : Text) : (splitLines (splitLines text).2).1 = [] := by
  have hself := congrArg Prod.fst (splitLines_append text [])
  simpa using hself

theorem splitLines_replacementChar (text : Text) (n : ℕ) :
    splitLines (text ++ replicate n replacementChar) =
      ((splitLines text).1, (splitLines text).2 ++ replicate n replacementChar) := by
  suffices hlast : ∀ last, (splitLines last).1 = [] →
      (splitLines (last ++ replicate n replacementChar)).1 = [] by
    have hnone := hlast _ (splitLines_snd text)
    rw [splitLines_append, hnone, append_nil, splitLines_of_nil hnone]
  induction n with
  | zero => simp
  | succ n ih =>
    intro last hlast
    rw [replicate_succ, splitLines_between hlast (by decide) (by decide), prepend_eq_nil]
    exact ih [] rfl

theorem upToQuit_append (done more : List (Text × Text)) : upToQuit (done ++ more) =
    if quit ∈ done.map Prod.fst then upToQuit done else done ++ upToQuit more := by
  induction done with
  | nil => rfl
  | cons call _ ih =>
    by_cases hquit : call.1 = quit
    · simp [upToQuit, hquit]
    · simp only [cons_append, upToQuit, ih, if_neg hquit, map_cons, mem_cons, Ne.symm hquit,
        false_or]
      split <;> rfl

theorem upToQuit_of_not_mem {found : List (Text × Text)} (h : quit ∉ found.map Prod.fst) :
    upToQuit found = found := by
  have happ := upToQuit_append found []
  rwa [if_neg h, upToQuit, append_nil] at happ

/-! ## Commands -/

theorem count_dropWhile {x : Char} {p : Char → Bool} (h : p x = false) (text : Text) :
    (text.dropWhile p).count x = text.count x := by
  have hzero : (text.takeWhile p).count x = 0 :=
    count_eq_zero.mpr fun hx => by simp [mem_takeWhile_imp hx] at h
  conv_rhs => rw [← @takeWhile_append_dropWhile _ p text, count_append, hzero, Nat.zero_add]

theorem count_intercalate {x s : Char} (h : s ≠ x) (parts : List Text) :
    ([s].intercalate parts).count x = (parts.map (count x)).sum := by
  induction parts with
  | nil => rfl
  | cons part parts ih =>
    cases parts with
    | nil => simp [intercalate]
    | cons => simp_all [intercalate]

variable {toUpperCase : Text → Text}

/-- What `toUpperCase` has to keep for a replacement character to show in a command. -/
def KeepsReplacements (toUpperCase : Text → Text) : Prop :=
  ∀ text, (toUpperCase text).count replacementChar = text.count replacementChar

theorem count_parseCommand (h : KeepsReplacements toUpperCase) (line : Text) :
    (parseCommand toUpperCase line).1.count replacementChar +
      (parseCommand toUpperCase line).2.count replacementChar = line.count replacementChar := by
  have htrim : (trim line).count replacementChar = line.count replacementChar := by
    rw [trim, rdropWhile, count_reverse, count_dropWhile (by decide), count_reverse,
      count_dropWhile (by decide)]
  have hparts : [' '].intercalate ((trim line).splitOn ' ') = trim line := intercalate_splitOn ' '
  rw [parseCommand, h, ← htrim]
  rw [count_intercalate (by decide)]
  conv_rhs => rw [← hparts, count_intercalate (by decide)]
  cases hsplit : (trim line).splitOn ' ' with
  | nil => rfl
  | cons _ _ => rfl

theorem calls_append (lines more : List Text) :
    calls toUpperCase (lines ++ more) = calls toUpperCase lines ++ calls toUpperCase more := by
  simp [calls]

/-! ## Calls -/

variable {r : Receiver} {text : Text}

theorem foldl_processMessage (lines : List Text) :
    (lines.map fun line => utf8Encode (String.ofList line)).foldl
      (Receiver.processMessage toUpperCase) r =
      { r with handled := r.handled ++ lines.map (parseCommand toUpperCase) } := by
  induction lines generalizing r with
  | nil => simp
  | cons _ _ ih =>
    rw [map_cons, foldl_cons, ih, Receiver.processMessage, utf8Decode_utf8Encode,
      String.toList_ofList, append_assoc]
    rfl

/-- A call keeps the bytes if no line has ended, and the last part of their text otherwise. -/
theorem Receiver.recvMsg_eq (piece : Buffer) : r.recvMsg toUpperCase piece =
    { messageBuffer := if linesOf (r.messageBuffer ++ piece) = [] then r.messageBuffer ++ piece
        else utf8Encode (String.ofList
          (splitLines (utf8Decode (r.messageBuffer ++ piece)).toList).2)
      handled := r.handled ++ calls toUpperCase (linesOf (r.messageBuffer ++ piece)) } := by
  unfold Receiver.recvMsg linesOf
  dsimp only
  split_ifs with hlines
  · simp [hlines, calls]
  · rw [foldl_processMessage]
    rfl

theorem Receiver.closed_iff : r.closed = true ↔ quit ∈ r.handled.map Prod.fst := by
  simp [Receiver.closed]

theorem Receiver.recvAll_closed (h : r.closed = true) (pieces : List Buffer) :
    r.recvAll toUpperCase pieces = r :=
  foldl_fixed' (by simp [h]) pieces

theorem Receiver.recvAll_open (h : ¬ r.closed = true) (piece : Buffer) (pieces : List Buffer) :
    r.recvAll toUpperCase (piece :: pieces) =
      (r.recvMsg toUpperCase piece).recvAll toUpperCase pieces := by
  rw [Receiver.recvAll, foldl_cons, if_neg h]
  rfl

theorem Receiver.handled_prefix (pieces : List Buffer) :
    r.handled <+: (r.recvAll toUpperCase pieces).handled := by
  induction pieces generalizing r with
  | nil => exact prefix_rfl
  | cons piece pieces ih =>
    by_cases hclosed : r.closed = true
    · exact (Receiver.recvAll_closed hclosed _).symm ▸ prefix_rfl
    · rw [Receiver.recvAll_open hclosed]
      refine IsPrefix.trans ?_ ih
      rw [Receiver.recvMsg_eq]
      exact prefix_append ..

/-- If more bytes only add to the lines, the first line that ends is the first that is handled. -/
theorem Receiver.recvAll_first {pieces : List Buffer} (hopen : ¬ r.closed = true)
    (hnone : linesOf r.messageBuffer = [])
    (hmono : ∀ bytes, bytes <+: pieces.flatten →
      linesOf (r.messageBuffer ++ bytes) <+: linesOf (r.messageBuffer ++ pieces.flatten)) :
    (linesOf (r.messageBuffer ++ pieces.flatten) = [] →
      (r.recvAll toUpperCase pieces).handled = r.handled) ∧
    ∀ line lines, linesOf (r.messageBuffer ++ pieces.flatten) = line :: lines → line ≠ [] →
      r.handled ++ [parseCommand toUpperCase line] <+: (r.recvAll toUpperCase pieces).handled := by
  induction pieces generalizing r with
  | nil =>
    rw [flatten_nil, append_nil, hnone]
    exact ⟨fun _ => rfl, nofun⟩
  | cons piece pieces ih =>
    rw [Receiver.recvAll_open hopen]
    have hpiece := hmono piece (prefix_append ..)
    by_cases hlines : linesOf (r.messageBuffer ++ piece) = []
    · have hstep : r.recvMsg toUpperCase piece =
          { r with messageBuffer := r.messageBuffer ++ piece } := by
        rw [Receiver.recvMsg_eq, hlines]
        simp [calls]
      rw [hstep, flatten_cons, ← append_assoc]
      refine ih (r := { r with messageBuffer := r.messageBuffer ++ piece }) hopen hlines ?_
      intro bytes hbytes
      have hmore := hmono (piece ++ bytes) (by simpa using hbytes)
      rwa [flatten_cons, ← append_assoc, ← append_assoc] at hmore
    · constructor
      · intro hall
        rw [hall, prefix_nil] at hpiece
        exact absurd hpiece hlines
      · intro line lines hall hline
        obtain ⟨line', lines', hsome⟩ := exists_cons_of_ne_nil hlines
        rw [hall, hsome, cons_prefix_cons] at hpiece
        obtain ⟨rfl, -⟩ := hpiece
        refine IsPrefix.trans ?_ (Receiver.handled_prefix _)
        rw [Receiver.recvMsg_eq, hsome, calls, filter_cons_of_pos (by simpa using hline)]
        exact ⟨_, by rw [append_assoc]; rfl⟩

/-! ## Bytes of a text -/

def bytesOf (text : Text) : Buffer := text.flatMap String.utf8EncodeChar

theorem bytesOf_append (text more : Text) : bytesOf (text ++ more) = bytesOf text ++ bytesOf more :=
  flatMap_append

theorem linesOf_bytesOf (text : Text) (rest : Buffer) :
    linesOf (bytesOf text ++ rest) = (splitLines (text ++ utf8Lossy none rest)).1 := by
  rw [linesOf, toList_utf8Decode, bytesOf, utf8Lossy_flatMap]

section

variable {back : Text} {p b : Buffer} (h : Cut back p b)
include h

theorem Cut.eq : p ++ b = bytesOf back := by
  cases h with
  | whole => rfl
  | inside _ hc => rw [bytesOf, flatMap_cons, hc, append_assoc]

theorem Cut.lossy : utf8Lossy none p = replicate (if p = [] then 0 else 1) replacementChar := by
  cases h with
  | whole => rfl
  | inside _ hc hp hq => rw [if_neg hp, (utf8Lossy_cut hc hp hq).1, replicate_one]

theorem Cut.linesOf (text : Text) : Ftp.linesOf (bytesOf text ++ p) = (splitLines text).1 := by
  rw [linesOf_bytesOf, Cut.lossy h, splitLines_replacementChar]

theorem Cut.whole_iff (text : Text) :
    utf8Encode (utf8Decode (bytesOf text ++ p)) = bytesOf text ++ p ↔ p = [] := by
  have hdecode : utf8Decode (bytesOf text ++ p) = String.ofList (text ++ utf8Lossy none p) := by
    rw [← String.toList_inj, toList_utf8Decode, String.toList_ofList, bytesOf, utf8Lossy_flatMap]
  rw [hdecode, utf8Encode_ofList, flatMap_append, bytesOf, append_cancel_left_eq]
  cases h with
  | whole => simp [utf8Lossy]
  | @inside c _ q _ hc hp hq =>
    refine iff_of_false (fun heq => ?_) hp
    -- the replacement character and the other bytes would be one character
    rw [(utf8Lossy_cut hc hp hq).1, flatMap_singleton] at heq
    have hone := utf8Lossy_utf8EncodeChar c []
    rw [hc, append_nil, ← heq, utf8Lossy_utf8EncodeChar, ← append_nil q,
      utf8Lossy_continuation (utf8Lossy_cut hc hp hq).2] at hone
    exact hq (by simpa [utf8Lossy] using congrArg length hone)

end

/-! ## Runs -/

/-- The receiver has gone through the lines of a text, and keeps what follows them and the first
bytes of another character. -/
structure Read (toUpperCase : Text → Text) (r : Receiver) (text : Text) (p : Buffer) : Prop where
  kept : r.messageBuffer = bytesOf (splitLines text).2 ++ p
  handled : r.handled = calls toUpperCase (splitLines text).1

/-- A character that is cut has several bytes. -/
theorem ne_of_cut {c x : Char} {p q : Buffer} (hc : String.utf8EncodeChar c = p ++ q) (hp : p ≠ [])
    (hq : q ≠ []) (hx : (String.utf8EncodeChar x).length = 1) : c ≠ x := by
  rintro rfl
  have hlen := congrArg length hc
  have := length_pos_iff.mpr hp
  have := length_pos_iff.mpr hq
  rw [hx, length_append] at hlen
  omega

/-- The rest of a stream of which a character was replaced: if a line ends in it, the first one
shows that. -/
theorem recvAll_replaced (hupper : KeepsReplacements toUpperCase) {last rest : Text} {c : Char}
    {p q : Buffer} {pieces : List Buffer} (hopen : ¬ r.closed = true)
    (hbuf : r.messageBuffer = bytesOf (last ++ [replacementChar]))
    (hlast : (splitLines last).1 = []) (hc : String.utf8EncodeChar c = p ++ q) (hp : p ≠ [])
    (hq : q ≠ []) (hpieces : pieces.flatten = q ++ bytesOf rest) :
    (r.recvAll toUpperCase pieces).handled =
        upToQuit (r.handled ++ calls toUpperCase (splitLines (last ++ c :: rest)).1) ↔
      (splitLines (last ++ c :: rest)).1 = [] := by
  have hcont := (utf8Lossy_cut hc hp hq).2
  have hquit : quit ∉ r.handled.map Prod.fst := mt r.closed_iff.mpr hopen
  have htrue := @splitLines_between last rest c hlast (ne_of_cut hc hp hq rfl)
    (ne_of_cut hc hp hq rfl)
  -- the text that the receiver reads instead
  set front := last ++ replicate q.length replacementChar with hfront
  have hfrontnil : (splitLines front).1 = [] := by rw [hfront, splitLines_replacementChar, hlast]
  have hread := @splitLines_between front rest replacementChar hfrontnil (by decide) (by decide)
  have hdecode (bytes : Buffer) : linesOf (r.messageBuffer ++ (q ++ bytes)) =
      (splitLines (front ++ replacementChar :: utf8Lossy none bytes)).1 := by
    rw [hbuf, linesOf_bytesOf, utf8Lossy_continuation hcont]
    simp only [hfront, append_assoc, singleton_append, ← cons_append, ← replicate_succ,
      replicate_succ']
  have hall : linesOf (r.messageBuffer ++ pieces.flatten) =
      (splitLines (front ++ replacementChar :: rest)).1 := by
    have htext := utf8Lossy_flatMap rest []
    rw [append_nil, utf8Lossy, append_nil] at htext
    rw [hpieces, hdecode, bytesOf, htext]
  have hwithin {bytes more : Buffer} (h : q ++ bytesOf rest = bytes ++ more) (hle : bytes <+: q) :
      linesOf (r.messageBuffer ++ bytes) = [] := by
    have hlossy := utf8Lossy_continuation (fun b hb => hcont b (hle.mem hb)) []
    rw [append_nil, utf8Lossy, append_nil] at hlossy
    rw [hbuf, linesOf_bytesOf, hlossy, append_assoc, singleton_append, ← replicate_succ,
      splitLines_replacementChar, hlast]
  have hmono : ∀ bytes, bytes <+: pieces.flatten →
      linesOf (r.messageBuffer ++ bytes) <+: linesOf (r.messageBuffer ++ pieces.flatten) := by
    rintro bytes ⟨more, hbytes⟩
    rw [hpieces] at hbytes
    obtain ⟨after, hq', -⟩ | ⟨within, rfl, hrest⟩ := append_eq_append_iff.mp hbytes
    · rw [hwithin hbytes.symm ⟨after, hq'.symm⟩]
      exact nil_prefix
    · obtain ⟨begun, later, _, rfl, rfl, hcut⟩ := exists_cut hrest.symm
      rw [hall, hdecode, utf8Lossy_flatMap, Cut.lossy hcut, ← cons_append, ← append_assoc,
        splitLines_replacementChar, ← cons_append, ← append_assoc, splitLines_append _ later]
      exact prefix_append ..
  have hnone : linesOf r.messageBuffer = [] := by
    have hzero := hwithin (nil_append _).symm nil_prefix
    rwa [append_nil] at hzero
  obtain ⟨hnothing, hfirst⟩ := @Receiver.recvAll_first toUpperCase _ _ hopen hnone hmono
  rw [hall, hread] at hnothing hfirst
  rw [htrue]
  rcases hsplit : splitLines rest with ⟨_ | ⟨line, lines⟩, end_⟩
  · rw [hsplit] at hnothing
    refine iff_of_true ?_ rfl
    rw [hnothing rfl]
    exact (upToQuit_of_not_mem (by simpa [prepend] using hquit)).symm.trans
      (by simp [prepend, calls])
  · rw [hsplit] at hfirst
    refine iff_of_false (fun heq => ?_) (cons_ne_nil _ _)
    obtain ⟨more, hmore⟩ := hfirst _ _ rfl (by simp)
    rw [heq, upToQuit_append, if_neg hquit, append_assoc, append_cancel_left_eq] at hmore
    have hhead : parseCommand toUpperCase (front ++ [replacementChar] ++ line) =
        parseCommand toUpperCase (last ++ [c] ++ line) := by
      rw [prepend, calls, filter_cons_of_pos (by simp), map_cons, upToQuit] at hmore
      split_ifs at hmore
      all_goals exact (cons.inj hmore).1
    have hcount := count_parseCommand hupper (front ++ [replacementChar] ++ line)
    rw [hhead, count_parseCommand hupper] at hcount
    have hpos := length_pos_iff.mpr hq
    have hle : [c].count replacementChar ≤ 1 := count_le_length
    simp only [hfront, count_append, count_replicate_self, count_singleton_self] at hcount
    omega

theorem Cut.of_nil {back : Text} {p : Buffer} (h : Cut back p []) : back = [] ∧ p = [] := by
  generalize hb : ([] : Buffer) = b at h
  cases h with
  | whole =>
    cases back with
    | nil => exact ⟨rfl, rfl⟩
    | cons => simp at hb
  | inside _ _ _ hq => exact absurd (append_eq_nil_iff.mp hb.symm).1 hq

/-- One call: the lines that end in it are handled, and a character that it cuts is replaced if
there are any. -/
theorem Read.recvMsg {text middle back : Text} {p p' piece b : Buffer}
    (h : Read toUpperCase r text p) (hcut : Cut back p' b)
    (hpiece : p ++ piece = bytesOf middle ++ p') :
    let new := (splitLines ((splitLines text).2 ++ middle)).1
    splitLines (text ++ middle) =
        ((splitLines text).1 ++ new, (splitLines ((splitLines text).2 ++ middle)).2) ∧
      r.recvMsg toUpperCase piece =
        { messageBuffer := bytesOf (splitLines (text ++ middle)).2 ++
            if new = [] then p' else bytesOf (utf8Lossy none p')
          handled := r.handled ++ calls toUpperCase new } := by
  have hbuf : r.messageBuffer ++ piece = bytesOf ((splitLines text).2 ++ middle) ++ p' := by
    rw [h.kept, append_assoc, hpiece, bytesOf_append, append_assoc]
  refine ⟨splitLines_append .., ?_⟩
  rw [Receiver.recvMsg_eq, hbuf, Cut.linesOf hcut, splitLines_append text]
  split_ifs with hnil
  · rw [splitLines_of_nil hnil]
  · rw [toList_utf8Decode, bytesOf, utf8Lossy_flatMap, Cut.lossy hcut, splitLines_replacementChar,
      utf8Encode_ofList, flatMap_append]
    rfl

theorem clean_cons {before piece : Buffer} {pieces : List Buffer} {lines new : List Text}
    (hbefore : linesOf before = lines) (hafter : linesOf (before ++ piece) = lines ++ new) :
    clean toUpperCase before (piece :: pieces) = true ↔
      if new = [] then clean toUpperCase (before ++ piece) pieces = true
      else upToQuit (calls toUpperCase new) = calls toUpperCase new ∧
        (quit ∈ (calls toUpperCase new).map Prod.fst ∨
          if utf8Encode (utf8Decode (before ++ piece)) = before ++ piece then
            clean toUpperCase (before ++ piece) pieces = true
          else linesOf (before ++ piece ++ pieces.flatten) = lines ++ new) := by
  rw [clean, hbefore, hafter]
  by_cases hnew : new = []
  · simp [hnew]
  · rw [if_neg (by simpa using hnew)]
    split_ifs <;> simp

/-- What a receiver handles of the rest of a stream is what is to be handled, exactly if the pieces
are clean. -/
theorem Read.recvAll_iff (hupper : KeepsReplacements toUpperCase) {text back : Text} {p : Buffer}
    {pieces : List Buffer} (h : Read toUpperCase r text p) (hopen : ¬ r.closed = true)
    (hcut : Cut back p pieces.flatten) :
    (r.recvAll toUpperCase pieces).handled =
        upToQuit (calls toUpperCase (splitLines (text ++ back)).1) ↔
      clean toUpperCase (bytesOf text ++ p) pieces = true := by
  induction pieces generalizing r text back p with
  | nil =>
    obtain ⟨rfl, rfl⟩ := Cut.of_nil hcut
    refine iff_of_true ?_ rfl
    rw [append_nil, ← h.handled, upToQuit_of_not_mem (mt r.closed_iff.mpr hopen)]
    rfl
  | cons piece pieces ih =>
    have hquit : quit ∉ r.handled.map Prod.fst := mt r.closed_iff.mpr hopen
    obtain ⟨middle, back, p', rfl, hpiece, hcut'⟩ := exists_cut (by
      rw [append_assoc, ← flatten_cons, Cut.eq hcut, bytesOf] :
        p ++ piece ++ pieces.flatten = back.flatMap String.utf8EncodeChar)
    obtain ⟨hsplit, hstep⟩ := h.recvMsg hcut' hpiece
    have hbytes : bytesOf text ++ p ++ piece = bytesOf (text ++ middle) ++ p' := by
      rw [append_assoc, hpiece, bytesOf_append, append_assoc]
      rfl
    generalize (splitLines ((splitLines text).2 ++ middle)).1 = new at hsplit hstep
    have hclean := @clean_cons toUpperCase (bytesOf text ++ p) piece pieces _ new
      (Cut.linesOf hcut text) (by rw [hbytes, Cut.linesOf hcut', hsplit])
    rw [Receiver.recvAll_open hopen, hclean, hbytes, ← append_assoc]
    generalize r.recvMsg toUpperCase piece = r' at hstep ⊢
    have hhandled : r'.handled = calls toUpperCase (splitLines (text ++ middle)).1 := by
      rw [hstep, hsplit, calls_append, h.handled]
    have hafter : r'.handled = r.handled ++ calls toUpperCase new := by rw [hstep]
    have hclosed : r'.closed = true ↔ quit ∈ (calls toUpperCase new).map Prod.fst := by
      rw [Receiver.closed_iff, hafter, map_append, mem_append, or_iff_right hquit]
    by_cases hnil : new = []
    · rw [if_pos hnil, ih ⟨by rw [hstep, if_pos hnil], hhandled⟩ _ hcut']
      rw [hclosed, hnil]
      exact not_mem_nil
    rw [if_neg hnil, ← hclosed]
    have hlater := splitLines_append (text ++ middle) back
    by_cases hend : r'.closed = true
    · rw [Receiver.recvAll_closed hend, hlater, calls_append, ← hhandled, upToQuit_append,
        if_pos (r'.closed_iff.mp hend), hafter, upToQuit_append, if_neg hquit,
        append_cancel_left_eq, and_iff_left (Or.inl hend), eq_comm]
    rw [and_iff_right (upToQuit_of_not_mem (mt hclosed.mpr hend)), or_iff_right hend]
    by_cases hwhole : p' = []
    · subst hwhole
      rw [if_pos ((Cut.whole_iff hcut' _).mpr rfl), ih ⟨?_, hhandled⟩ hend hcut']
      rw [hstep, if_neg hnil]
      rfl
    · have hall : linesOf (bytesOf (text ++ middle) ++ p' ++ pieces.flatten) =
          (splitLines (text ++ middle ++ back)).1 := by
        have hlines := linesOf_bytesOf (text ++ middle ++ back) []
        rwa [append_nil, utf8Lossy, append_nil, bytesOf_append, ← Cut.eq hcut',
          ← append_assoc] at hlines
      rw [if_neg (mt (Cut.whole_iff hcut' _).mp hwhole), hall, hlater, calls_append, ← hhandled,
        hsplit, append_right_eq_self]
      generalize hrest : pieces.flatten = bytes at hcut'
      cases hcut' with
      | whole => exact absurd rfl hwhole
      | inside rest hc hp hq =>
        refine recvAll_replaced hupper hend ?_ (splitLines_snd _) hc hp hq hrest
        rw [hstep, if_neg hnil, (utf8Lossy_cut hc hp hq).1, bytesOf_append, hsplit]

/-- However a stream is cut, its commands are handled, each once, in order and up to `QUIT`,
exactly if the pieces are clean. -/
theorem recvAll_handles_iff (toUpperCase : Text → Text) (hupper : KeepsReplacements toUpperCase)
    (stream : String) (pieces : List Buffer) (hpieces : pieces.flatten = utf8Encode stream) :
    (Receiver.recvAll toUpperCase {} pieces).handled =
        upToQuit (calls toUpperCase (splitLines stream.toList).1) ↔
      clean toUpperCase [] pieces = true := by
  have hbytes := utf8Encode_ofList stream.toList
  rw [String.ofList_toList, ← hpieces] at hbytes
  have hcut : Cut stream.toList [] pieces.flatten := hbytes ▸ .whole _
  exact (⟨rfl, rfl⟩ : Read toUpperCase {} [] []).recvAll_iff hupper (by decide) hcut

/-- `toUpperCase` of an ASCII text. -/
def upper (text : Text) : Text := text.map Char.toUpper

theorem upper_keepsReplacements : KeepsReplacements upper := by
  intro text
  rw [upper, count_eq_countP, countP_map]
  refine countP_congr fun c _ => ?_
  simp only [Function.comp_apply, beq_iff_eq]
  by_cases hlow : c.toNat < 128
  · have hall : ∀ n < 128, (Char.ofNat n).toUpper ≠ replacementChar ∧
        Char.ofNat n ≠ replacementChar := by decide +kernel
    have hboth := hall c.toNat hlow
    rw [Char.ofNat_toNat] at hboth
    exact iff_of_false hboth.1 hboth.2
  · have hsame : c.toUpper = c := dif_neg fun hletter => by
      have hz : c.toNat ≤ 122 := UInt32.le_iff_toNat_le.mp hletter.2
      omega
    rw [hsame]

/-- A character is cut, but no line ends in front of the cut. -/
theorem recvAll_handles_cut :
    (Receiver.recvAll upper {} [utf8Encode "noop\r", utf8Encode "\n", utf8Encode "CWD " ++ [0xc3],
      [0xa4, 13, 10] ++ utf8Encode "QUIT\r\nNO", utf8Encode "OP\r\n"]).handled =
    [("NOOP".toList, []), ("CWD".toList, "ä".toList), ("QUIT".toList, [])] :=
  ((recvAll_handles_iff upper upper_keepsReplacements "noop\r\nCWD ä\r\nQUIT\r\nNOOP\r\n" _
    (by decide +kernel)).mpr (by decide +kernel)).trans (by decide +kernel)

/-- The second byte of a character arrives after a line has ended, and a command stands behind a
`QUIT`. -/
theorem commands_misread :
    (Receiver.recvAll upper {} [utf8Encode "NOOP\r\nCWD " ++ [0xc3], [0xa4, 13, 10]]).handled =
      [("NOOP".toList, []), ("CWD".toList, [replacementChar, replacementChar])] ∧
    (Receiver.recvAll upper {} [utf8Encode "QUIT\r\nNOOP\r\n"]).handled =
      [("QUIT".toList, []), ("NOOP".toList, [])] := by
  decide +kernel

end Ftp
