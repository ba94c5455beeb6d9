import MonkeyFrontEnd.Proofs.Interchange
import MonkeyFrontEnd.Proofs.LineBreaks
import MonkeyFrontEnd.Proofs.Reports
import MonkeyFrontEnd.Session

/-!
What a session writes. The bytes of an input are lines in one way only (`Session.isLines_iff`). A line
is answered by itself (`Session.transcript_append`). The first line that is no text ends the session
with what was written before it (`Session.run_of_fits`), and so does the first report that cannot be
written (`Session.run_of_fault`). In the mode that shows tokens the answers, one after the
other, are the tokens of the whole input: the newlines at which it is cut, and the carriage returns
that are dropped, stand where no token is (`Session.exists_lines_of_chars`).
-/

namespace MonkeyFrontEnd

namespace Session

/-! ## Lines -/

/-- Bytes and their lines. A newline ends each line, and a carriage return directly before it does not
belong to the line; the last line may lack the newline, if it is not empty. -/
inductive IsLines : List UInt8 → List (List UInt8) → Prop
  | nil : IsLines [] []
  | last {line : List UInt8} (hne : line ≠ []) (hline : newline ∉ line) : IsLines line [line]
  | newline {line rest : List UInt8} {lines : List (List UInt8)} (hline : newline ∉ line)
      (hreturn : line.getLast? ≠ some carriageReturn) (hrest : IsLines rest lines) :
      IsLines (line ++ newline :: rest) (line :: lines)
  | carriageReturn {line rest : List UInt8} {lines : List (List UInt8)} (hline : newline ∉ line)
      (hrest : IsLines rest lines) :
      IsLines (line ++ carriageReturn :: newline :: rest) (line :: lines)

section

variable {line rest bytes : List UInt8} {lines : List (List UInt8)}

theorem chomp_of_not_mem (h : newline ∉ line) : chomp line = line := by
  rw [chomp, if_neg fun hlast => h (List.mem_of_getLast? hlast)]

theorem chomp_concat (line : List UInt8) : chomp (line ++ [newline]) =
    if line.getLast? = some carriageReturn then line.dropLast else line := by
  rw [chomp, if_pos List.getLast?_concat, List.dropLast_concat]

theorem inputLines_append_newline (h : newline ∉ line) (rest : List UInt8) :
    inputLines (line ++ newline :: rest) = chomp (line ++ [newline]) :: inputLines rest := by
  rw [inputLines, Text.pieces_append_cons h]
  rfl

theorem IsLines.eq_inputLines (h : IsLines bytes lines) : lines = inputLines bytes := by
  induction h with
  | nil => rfl
  | @last line hne hline =>
    rw [inputLines, Text.pieces_of_not_mem hne hline, List.map_singleton, chomp_of_not_mem hline]
  | newline hline hreturn _ ih =>
    rw [inputLines_append_newline hline, chomp_concat, if_neg hreturn, ih]
  | @carriageReturn line rest lines hline _ ih =>
    have hline' : Session.newline ∉ line ++ [Session.carriageReturn] := by
      rw [List.mem_append, not_or]
      exact ⟨hline, by decide⟩
    have hsplit : line ++ Session.carriageReturn :: Session.newline :: rest =
        (line ++ [Session.carriageReturn]) ++ Session.newline :: rest := by simp
    rw [hsplit, inputLines_append_newline hline', chomp_concat, if_pos List.getLast?_concat,
      List.dropLast_concat, ih]

theorem isLines_inputLines (bytes : List UInt8) : IsLines bytes (inputLines bytes) := by
  induction hlength : bytes.length using Nat.strongRecOn generalizing bytes with
  | ind n ih =>
    subst hlength
    by_cases hnewline : newline ∈ bytes
    · obtain ⟨line, rest, rfl, hline⟩ := List.eq_append_cons_of_mem hnewline
      have hrest := ih rest.length (by simp only [List.length_append, List.length_cons]; omega) rest rfl
      rw [inputLines_append_newline hline, chomp_concat]
      split
      · next hreturn =>
        obtain ⟨front, rfl⟩ := List.getLast?_eq_some_iff.1 hreturn
        have hfront : newline ∉ front := fun h => hline (List.mem_append_left _ h)
        rw [List.dropLast_concat, List.append_assoc]
        exact .carriageReturn hfront hrest
      · next hreturn => exact .newline hline hreturn hrest
    · by_cases hne : bytes = []
      · rw [hne]
        exact .nil
      · rw [inputLines, Text.pieces_of_not_mem hne hnewline, List.map_singleton,
          chomp_of_not_mem hnewline]
        exact .last hne hnewline

/-- The lines of bytes are determined by the bytes. -/
theorem isLines_iff : IsLines bytes lines ↔ lines = inputLines bytes :=
  ⟨IsLines.eq_inputLines, fun h => h ▸ isLines_inputLines bytes⟩

end

/-! ## Texts as bytes -/

/-- The bytes of a text. -/
def bytesOf (text : String) : List UInt8 := text.toUTF8.toList

/-- The bytes are those of a text. -/
def IsText (bytes : List UInt8) : Prop := ∃ text, bytesOf text = bytes

theorem toList_loop (bytes : ByteArray) (i : Nat) (done : List UInt8) :
    ByteArray.toList.loop bytes i done = done.reverse ++ bytes.data.toList.drop i := by
  fun_induction ByteArray.toList.loop bytes i done with
  | case1 i done h ih =>
    have hi : i < bytes.data.toList.length := by simpa using h
    rw [ih, List.drop_eq_getElem_cons hi]
    simp [ByteArray.get!, h]
  | case2 i done h =>
    have hle : bytes.data.toList.length ≤ i := by simpa using Nat.le_of_not_lt h
    rw [List.drop_eq_nil_of_le hle, List.append_nil]

theorem toList_eq (bytes : ByteArray) : bytes.toList = bytes.data.toList := by
  rw [ByteArray.toList, toList_loop]
  rfl

theorem mk_toArray_bytesOf (text : String) : ⟨(bytesOf text).toArray⟩ = text.toUTF8 := by
  rw [bytesOf, toList_eq, Array.toArray_toList]

theorem readText_bytesOf (text : String) : readText ⟨(bytesOf text).toArray⟩ = .ok text := by
  have hvalid : text.toUTF8.IsValidUTF8 := text.isValidUTF8
  rw [mk_toArray_bytesOf, readText, String.fromUTF8?, dif_pos hvalid]
  rfl

theorem readText_of_not_isText {bytes : List UInt8} (h : ¬ IsText bytes) :
    readText ⟨bytes.toArray⟩ = .error .notText := by
  rw [readText, String.fromUTF8?, dif_neg]
  intro hvalid
  refine h ⟨String.fromUTF8 ⟨bytes.toArray⟩ hvalid, ?_⟩
  rw [bytesOf, toList_eq]
  rfl

theorem bytesOf_ofList (cs : List Char) : bytesOf (String.ofList cs) = cs.flatMap String.utf8EncodeChar := by
  rw [bytesOf, toList_eq, String.toUTF8_eq_toByteArray, String.toByteArray_ofList, List.utf8Encode,
    List.toList_data_toByteArray]

theorem length_bytesOf (text : String) : (bytesOf text).length = Text.byteLength text.toList := by
  rw [← String.ofList_toList (s := text), bytesOf_ofList, String.toList_ofList]
  induction text.toList with
  | nil => rfl
  | cons c cs ih =>
    rw [List.flatMap_cons, List.length_append, ih, String.length_utf8EncodeChar, Text.byteLength_cons]

/-- The bytes below 128 are those of the characters of ASCII, and of no others. -/
theorem toNat_eq_of_mem_utf8EncodeChar {c : Char} {b : UInt8} (hb : b.toNat < 128)
    (h : b ∈ String.utf8EncodeChar c) : c.toNat = b.toNat := by
  have hhigh (n : Nat) (hn : 128 ≤ n % 256) : b ≠ UInt8.ofNat n := by
    rintro rfl
    rw [UInt8.toNat_ofNat'] at hb
    omega
  revert h
  fun_cases String.utf8EncodeChar c with
  | case1 v hv =>
    intro h
    obtain rfl := List.mem_singleton.1 h
    rw [UInt8.toNat_ofNat']
    change c.val.toNat ≤ 127 at hv
    change c.val.toNat = c.val.toNat % 256
    omega
  | case2 =>
    intro h
    simp only [List.mem_cons, List.not_mem_nil, or_false] at h
    rcases h with h | h <;> exact absurd h (hhigh _ (by omega))
  | case3 =>
    intro h
    simp only [List.mem_cons, List.not_mem_nil, or_false] at h
    rcases h with h | h | h <;> exact absurd h (hhigh _ (by omega))
  | case4 =>
    intro h
    simp only [List.mem_cons, List.not_mem_nil, or_false] at h
    rcases h with h | h | h | h <;> exact absurd h (hhigh _ (by omega))

section

variable {cs : List Char}

theorem newline_mem_of_bytes (h : newline ∈ cs.flatMap String.utf8EncodeChar) : '\n' ∈ cs := by
  obtain ⟨c, hc, hbyte⟩ := List.mem_flatMap.1 h
  have hcode := toNat_eq_of_mem_utf8EncodeChar (by decide) hbyte
  obtain rfl : c = '\n' := Char.ext (UInt32.toNat_inj.1 hcode)
  exact hc

theorem getLast?_of_bytes (h : (cs.flatMap String.utf8EncodeChar).getLast? = some carriageReturn) :
    cs.getLast? = some '\r' := by
  cases hlast : cs.getLast? with
  | none =>
    rw [List.getLast?_eq_none_iff.1 hlast] at h
    cases h
  | some c =>
    obtain ⟨front, rfl⟩ := List.getLast?_eq_some_iff.1 hlast
    rw [List.flatMap_append, List.flatMap_singleton,
      List.getLast?_append_of_ne_nil _ String.utf8EncodeChar_ne_nil] at h
    have hcode := toNat_eq_of_mem_utf8EncodeChar (by decide) (List.mem_of_getLast? h)
    rw [show c = '\r' from Char.ext (UInt32.toNat_inj.1 hcode)]

/-- The lines of a text are texts, and their tokens are those of the text. -/
theorem exists_lines_of_chars (cs : List Char) : ∃ lines : List (List Char),
    IsLines (cs.flatMap String.utf8EncodeChar) (lines.map (·.flatMap String.utf8EncodeChar)) ∧
      lines.flatMap readBare = readBare cs := by
  induction hlength : cs.length using Nat.strongRecOn generalizing cs with
  | ind n ih =>
    subst hlength
    by_cases hnewline : '\n' ∈ cs
    · obtain ⟨line, rest, rfl, hline⟩ := List.eq_append_cons_of_mem hnewline
      have hshorter : rest.length < (line ++ '\n' :: rest).length := by
        simp only [List.length_append, List.length_cons]
        omega
      obtain ⟨lines, hlines, hread⟩ := ih rest.length hshorter rest rfl
      have hbytes : (line ++ '\n' :: rest).flatMap String.utf8EncodeChar =
          line.flatMap String.utf8EncodeChar ++ newline :: rest.flatMap String.utf8EncodeChar := by
        rw [List.flatMap_append, List.flatMap_cons]
        rfl
      rw [hbytes, readBare_newline]
      by_cases hreturn : line.getLast? = some '\r'
      · obtain ⟨front, rfl⟩ := List.getLast?_eq_some_iff.1 hreturn
        have hfront : newline ∉ front.flatMap String.utf8EncodeChar := fun h =>
          hline (List.mem_append_left _ (newline_mem_of_bytes h))
        have hsplit : (front ++ ['\r']).flatMap String.utf8EncodeChar =
            front.flatMap String.utf8EncodeChar ++ [carriageReturn] := by
          rw [List.flatMap_append]
          rfl
        rw [hsplit, readBare_concat_blank (by decide), List.append_assoc]
        exact ⟨front :: lines, .carriageReturn hfront hlines, by rw [List.flatMap_cons, hread]⟩
      · exact ⟨line :: lines, .newline (fun h => hline (newline_mem_of_bytes h))
          (fun h => hreturn (getLast?_of_bytes h)) hlines, by rw [List.flatMap_cons, hread]⟩
    · cases cs with
      | nil => exact ⟨[], .nil, by simp⟩
      | cons c cs =>
        refine ⟨[c :: cs], .last ?_ fun h => hnewline (newline_mem_of_bytes h), by simp⟩
        rw [List.flatMap_cons]
        exact List.append_ne_nil_of_left_ne_nil String.utf8EncodeChar_ne_nil _

end

/-! ## Answers -/

/-- Whatever is to be reported about the line can be reported. -/
def Mode.Fits (mode : Mode) (line : String) : Prop :=
  mode = .ast → ∀ d ∈ (parseText line Scanner.defaultFile).2.diagnostics, d.Fits line

section

variable {source text line : String} {ds : List Diagnostic} {mode : Mode}

theorem fault?_reports_of_fits (h : ∀ d ∈ ds, d.Fits source) : (reports source ds).fault? = none := by
  induction ds with
  | nil => rfl
  | cons d ds ih =>
    rw [List.forall_mem_cons] at h
    obtain ⟨shown, hshown⟩ := Diagnostic.exists_report_iff.2 h.1
    simp only [reports, hshown]
    exact ih h.2

theorem exists_fault?_reports (h : ¬ ∀ d ∈ ds, d.Fits source) :
    ∃ columns > 65535, (reports source ds).fault? = some (.width columns) := by
  induction ds with
  | nil => exact absurd (by simp) h
  | cons d ds ih =>
    by_cases hd : d.Fits source
    · obtain ⟨shown, hshown⟩ := Diagnostic.exists_report_iff.2 hd
      simp only [reports, hshown]
      exact ih fun hds => h (List.forall_mem_cons.2 ⟨hd, hds⟩)
    · obtain ⟨columns, hcolumns, hwide⟩ := Diagnostic.report_of_not_fits hd
      exact ⟨columns, hcolumns, by simp only [reports, hwide]⟩

theorem fault?_answer_of_fits (h : mode.Fits line) : (answer mode line).fault? = none := by
  cases mode with
  | tokens => rfl
  | ast =>
    simp only [answer, programDump]
    split
    · rfl
    · exact fault?_reports_of_fits fun d hd => h rfl d (Array.mem_toList_iff.1 hd)

theorem answer_ast_of_ne_empty (h : (parseText line Scanner.defaultFile).2.diagnostics ≠ #[]) :
    answer .ast line = reports line (parseText line Scanner.defaultFile).2.diagnostics.toList := by
  simp only [answer, programDump]
  rw [if_neg (mt Array.isEmpty_iff.1 h)]

theorem exists_fault?_answer (h : ¬ mode.Fits line) :
    ∃ columns > 65535, (answer mode line).fault? = some (.width columns) := by
  obtain ⟨rfl, hdiagnostics⟩ := Classical.not_imp.1 h
  have hne : (parseText line Scanner.defaultFile).2.diagnostics ≠ #[] := fun hempty =>
    hdiagnostics (by simp [hempty])
  rw [answer_ast_of_ne_empty hne]
  exact exists_fault?_reports fun hfits =>
    hdiagnostics fun d hd => hfits d (Array.mem_toList_iff.2 hd)

/-- Nothing that is reported about a short line is too wide. -/
theorem fits_of_length (mode : Mode) (h : (bytesOf line).length < 65535) : mode.Fits line := by
  refine fun _ d _ => d.fits_of_lines fun l hl => Nat.lt_of_le_of_lt ?_ h
  obtain ⟨before, after, hsplit⟩ := List.append_of_mem hl
  rw [length_bytesOf, ← Text.flatten_lines line.toList, hsplit, List.flatten_append,
    List.flatten_cons, Text.byteLength_append, Text.byteLength_append]
  omega

/-- A line that is answered, and what is written about the lines behind it. -/
theorem transcript_of_fits (h : mode.Fits text) (rest : List (List UInt8)) :
    transcript mode (bytesOf text :: rest) =
      (prompt :: (answer mode text).written :: (transcript mode rest).1, (transcript mode rest).2) := by
  rw [transcript, readText_bytesOf]
  simp only [fault?_answer_of_fits h]

/-- A session is aborted in the middle of an answer, with the reports in front of the one that cannot be
written. -/
theorem transcript_of_fault {fault : Diagnostic.ReportFault} (h : (answer mode text).fault? = some fault)
    (rest : List (List UInt8)) :
    transcript mode (bytesOf text :: rest) = ([prompt, (answer mode text).written], .aborted fault) := by
  rw [transcript, readText_bytesOf]
  simp only [h]

/-- Only the prompt is written for a line that is missing or that is no text. -/
theorem transcript_of_head? (mode : Mode) {rest : List (List UInt8)}
    (hrest : ∀ line ∈ rest.head?, ¬ IsText line) :
    transcript mode rest = ([prompt], if rest = [] then .closed else .unreadable .notText) := by
  cases rest with
  | nil => rfl
  | cons line rest =>
    have hfault := readText_of_not_isText (hrest line rfl)
    rw [transcript, hfault, if_neg (by simp)]

theorem transcript_append {texts : List String} (htexts : ∀ text ∈ texts, mode.Fits text)
    (rest : List (List UInt8)) :
    transcript mode (texts.map bytesOf ++ rest) =
      (texts.flatMap (fun text => [prompt, (answer mode text).written]) ++ (transcript mode rest).1,
        (transcript mode rest).2) := by
  induction texts with
  | nil => rfl
  | cons text texts ih =>
    rw [List.forall_mem_cons] at htexts
    rw [List.map_cons, List.cons_append, transcript_of_fits htexts.1, ih htexts.2, List.flatMap_cons]
    rfl

end

/-- Lines up to the first one that is no text. -/
theorem exists_texts (lines : List (List UInt8)) : ∃ (texts : List String) (rest : List (List UInt8)),
    lines = texts.map bytesOf ++ rest ∧ ∀ line ∈ rest.head?, ¬ IsText line := by
  induction lines with
  | nil => exact ⟨[], [], rfl, by simp⟩
  | cons line lines ih =>
    by_cases hline : IsText line
    · obtain ⟨text, rfl⟩ := hline
      obtain ⟨texts, rest, rfl, hrest⟩ := ih
      exact ⟨text :: texts, rest, rfl, hrest⟩
    · exact ⟨[], line :: lines, rfl, by simpa using hline⟩

/-- Texts up to the first one about which something cannot be reported. -/
theorem exists_answered {mode : Mode} {texts : List String} (h : ¬ ∀ text ∈ texts, mode.Fits text) :
    ∃ answered text later, texts = answered ++ text :: later ∧ (∀ t ∈ answered, mode.Fits t) ∧
      ¬ mode.Fits text := by
  induction texts with
  | nil => exact absurd (by simp) h
  | cons text texts ih =>
    by_cases htext : mode.Fits text
    · obtain ⟨answered, wide, later, rfl, hanswered, hwide⟩ :=
        ih fun hrest => h (List.forall_mem_cons.2 ⟨htext, hrest⟩)
      exact ⟨text :: answered, wide, later, rfl, List.forall_mem_cons.2 ⟨htext, hanswered⟩, hwide⟩
    · exact ⟨[], text, texts, rfl, by simp, htext⟩

theorem join_answers (mode : Mode) (texts : List String) (last : List String) :
    String.join (texts.flatMap (fun text => [prompt, (answer mode text).written]) ++ last) =
      String.join (texts.map fun text => prompt ++ (answer mode text).written) ++ String.join last := by
  induction texts with
  | nil => simp
  | cons text texts ih =>
    rw [List.flatMap_cons, List.append_assoc, String.join_append, ih, List.map_cons, String.join_cons]
    simp only [String.join_cons, String.join_nil, String.append_empty, String.append_assoc]

section

variable {mode : Mode} {input : ByteArray} {texts : List String} {rest : List (List UInt8)}

/-- A session on lines that are texts up to some line. -/
theorem run_of_fits (hlines : inputLines input.toList = texts.map bytesOf ++ rest)
    (hrest : ∀ line ∈ rest.head?, ¬ IsText line) (hfits : ∀ text ∈ texts, mode.Fits text) :
    run mode input =
      (String.join (texts.map fun text => prompt ++ (answer mode text).written) ++ prompt,
        if rest = [] then .closed else .unreadable .notText) := by
  rw [run, hlines, transcript_append hfits, transcript_of_head? mode hrest]
  exact Prod.ext ((join_answers mode texts [prompt]).trans (by simp)) rfl

/-- A session on lines of which one has a report that cannot be written. -/
theorem run_of_fault {text : String} {fault : Diagnostic.ReportFault}
    (hlines : inputLines input.toList = texts.map bytesOf ++ bytesOf text :: rest)
    (hfits : ∀ text ∈ texts, mode.Fits text) (hfault : (answer mode text).fault? = some fault) :
    run mode input =
      (String.join (texts.map fun text => prompt ++ (answer mode text).written) ++ prompt ++
        (answer mode text).written, .aborted fault) := by
  rw [run, hlines, transcript_append hfits, transcript_of_fault hfault]
  refine Prod.ext ((join_answers mode texts _).trans ?_) rfl
  simp [String.append_assoc]

end

/-- Tokens are printed by their kinds and texts. -/
theorem map_display_bare (ts : List Token) :
    (ts.map Token.bare).map (fun t => t.display ++ "\n") = ts.map fun t => t.display ++ "\n" := by
  rw [List.map_map]
  rfl

/-- The printed tokens of a line, as they are read. -/
theorem tokenDump_eq (line : String) :
    tokenDump line = String.join ((readBare line.toList).map fun t => t.display ++ "\n") := by
  have hbare := Scanner.map_bare_drain (Scanner.ofString line Scanner.defaultFile)
  rw [tokenDump, show readBare line.toList = _ from hbare.symm, map_display_bare]

theorem join_tokenDump (lines : List (List Char)) :
    String.join ((lines.map String.ofList).map tokenDump) =
      String.join ((lines.flatMap readBare).map fun t => t.display ++ "\n") := by
  induction lines with
  | nil => rfl
  | cons line lines ih =>
    rw [List.map_cons, List.map_cons, String.join_cons, ih, tokenDump_eq, String.toList_ofList,
      List.flatMap_cons, List.map_append, String.join_append]

/-- A session that shows tokens, on a text. The answers, one after the other, are the tokens of the whole
text. -/
theorem exists_run_tokens (text file : String) :
    ∃ (texts : List String) (tokens : List Token) (last : Token),
      inputLines text.toUTF8.toList = texts.map bytesOf ∧
      run .tokens text.toUTF8 =
        (String.join (texts.map fun text => ">> " ++ (answer .tokens text).written) ++ ">> ", .closed) ∧
      (Lexer.ofString text file).Yields tokens last ∧
      String.join (texts.map fun text => (answer .tokens text).written) =
        String.join (tokens.map fun t =>
          "\x7bType:" ++ t.kind.name ++ " Literal:" ++ t.text ++ "\x7d" ++ "\n") := by
  obtain ⟨lines, hchars, hread⟩ := exists_lines_of_chars text.toList
  have hbytes (cs : List Char) : cs.flatMap String.utf8EncodeChar = bytesOf (String.ofList cs) :=
    (bytesOf_ofList cs).symm
  have htexts : inputLines text.toUTF8.toList = (lines.map String.ofList).map bytesOf := by
    rw [hbytes, String.ofList_toList] at hchars
    rw [List.map_map]
    simp only [hbytes] at hchars
    exact hchars.eq_inputLines.symm
  have hyields := Lexer.yields_drain (l := Lexer.ofString text file) rfl (Text.dropBytes_zero _)
  refine ⟨lines.map String.ofList, _, _, htexts, ?_, hyields, ?_⟩
  · have hwhole : inputLines text.toUTF8.toList = (lines.map String.ofList).map bytesOf ++ [] := by
      rw [htexts, List.append_nil]
    exact run_of_fits hwhole (by simp) fun _ _ h => by cases h
  · have hbare := Scanner.map_bare_drain ((Lexer.ofString text file).scanner text.toList)
    change String.join ((lines.map String.ofList).map tokenDump) = _
    rw [join_tokenDump, hread, ← show _ = readBare text.toList from hbare, map_display_bare]
    rfl

/-- A session takes the lines of its input one by one, and what it writes about a line depends on nothing
else. If all that is to be reported about the lines before the first that is no text can be reported, it
writes a prompt and the answer to each of them, and one more prompt; and it fails if and only if there is
a line that is no text. Otherwise it is aborted at the first line with a report that cannot be written,
and writes nothing about the lines behind. All diagnostics of a line of less than 65535 bytes can be
reported, and where tokens are shown there is nothing to report. If the input is a text, the answers
that show tokens are, one after the other, the tokens that a lexer gives on the whole input. -/
theorem run_lines (mode : Mode) (input : ByteArray) :
    (∀ lines, IsLines input.toList lines ↔ lines = inputLines input.toList) ∧
    (∃ (texts : List String) (rest : List (List UInt8)),
      inputLines input.toList = texts.map bytesOf ++ rest ∧
      (∀ line ∈ rest.head?, ¬ IsText line) ∧
      ((∀ text ∈ texts, mode.Fits text) →
        run mode input = (String.join (texts.map fun text => ">> " ++ (answer mode text).written) ++ ">> ",
          if rest = [] then .closed else .unreadable .notText) ∧
        ((run mode input).2 = .unreadable .notText ↔ ∃ line ∈ inputLines input.toList, ¬ IsText line)) ∧
      ((¬ ∀ text ∈ texts, mode.Fits text) →
        ∃ answered text later, texts = answered ++ text :: later ∧
          (∀ t ∈ answered, mode.Fits t) ∧ ¬ mode.Fits text ∧
          ∃ columns > 65535, run mode input =
            (String.join (answered.map fun text => ">> " ++ (answer mode text).written) ++ ">> " ++
              (answer mode text).written, .aborted (.width columns)))) ∧
    (∀ line, mode = .tokens ∨ (bytesOf line).length < 65535 → mode.Fits line) ∧
    ∀ text file : String, ∃ (texts : List String) (tokens : List Token) (last : Token),
      inputLines text.toUTF8.toList = texts.map bytesOf ∧
      run .tokens text.toUTF8 =
        (String.join (texts.map fun text => ">> " ++ (answer .tokens text).written) ++ ">> ", .closed) ∧
      (Lexer.ofString text file).Yields tokens last ∧
      String.join (texts.map fun text => (answer .tokens text).written) =
        String.join (tokens.map fun t =>
          "\x7bType:" ++ t.kind.name ++ " Literal:" ++ t.text ++ "\x7d" ++ "\n") := by
  obtain ⟨texts, rest, hlines, hrest⟩ := exists_texts (inputLines input.toList)
  refine ⟨fun lines => isLines_iff, ⟨texts, rest, hlines, hrest, fun hfits => ?_, fun hwide => ?_⟩, ?_, ?_⟩
  · have hrun := run_of_fits hlines hrest hfits
    refine ⟨hrun, ?_⟩
    rw [hrun, hlines]
    cases rest with
    | nil =>
      refine iff_of_false (by simp) ?_
      rintro ⟨line, hline, hno⟩
      obtain ⟨text, -, rfl⟩ := List.mem_map.1 (by simpa using hline)
      exact hno ⟨text, rfl⟩
    | cons line rest => exact iff_of_true (by simp) ⟨line, by simp, hrest line rfl⟩
  · obtain ⟨answered, text, later, rfl, hanswered, hunfit⟩ := exists_answered hwide
    obtain ⟨columns, hcolumns, hfault⟩ := exists_fault?_answer hunfit
    have hsplit : inputLines input.toList =
        answered.map bytesOf ++ bytesOf text :: (later.map bytesOf ++ rest) := by
      rw [hlines, List.map_append, List.map_cons, List.append_assoc, List.cons_append]
    exact ⟨answered, text, later, rfl, hanswered, hunfit, columns, hcolumns,
      run_of_fault hsplit hanswered hfault⟩
  · rintro line (rfl | hshort)
    · exact fun h => by cases h
    · exact fits_of_length mode hshort
  · exact exists_run_tokens

/-- A session that shows programs, on lines that are short: the program of the first, a report on the
second, and then a line that is no text. -/
theorem run_lines_untilNoText :
    (∀ line ∈ inputLines [49, 59, 13, 10, 41, 10, 255, 10, 49], line.length < 65535) ∧
    (run .ast ⟨#[49, 59, 13, 10, 41, 10, 255, 10, 49]⟩).2 = .unreadable .notText := by
  have hbytes := toList_eq ⟨#[49, 59, 13, 10, 41, 10, 255, 10, 49]⟩
  have hlength : ∀ line ∈ inputLines [49, 59, 13, 10, 41, 10, 255, 10, 49], line.length < 65535 := by
    decide
  obtain ⟨-, ⟨texts, rest, hlines, -, hends, -⟩, hfits, -⟩ :=
    run_lines .ast ⟨#[49, 59, 13, 10, 41, 10, 255, 10, 49]⟩
  rw [hbytes] at hlines hends
  obtain ⟨-, hunreadable⟩ := hends fun text htext => by
    refine hfits text (.inr (hlength _ ?_))
    rw [hlines]
    exact List.mem_append_left _ (List.mem_map_of_mem htext)
  refine ⟨hlength, hunreadable.2 ⟨[255], by decide, ?_⟩⟩
  rintro ⟨text, htext⟩
  have hread := readText_bytesOf text
  rw [htext] at hread
  cases hread

/-! ## A report that is too wide -/

/-- Tabs and a parenthesis. The caret has to stand behind as many columns as there are tabs. -/
def tabbed (n : Nat) : List Char := List.replicate n '\t' ++ [')']

section

variable (n : Nat)

theorem newline_not_mem_tabbed : '\n' ∉ tabbed n := by
  rw [tabbed, List.mem_append, not_or]
  exact ⟨fun h => absurd (List.eq_of_mem_replicate h) (by decide), by decide⟩

theorem byteLength_tabs : Text.byteLength (List.replicate n '\t') = n := by
  induction n with
  | zero => rfl
  | succ n ih => rw [List.replicate_succ, Text.byteLength_cons, ih, Nat.add_comm]; rfl

theorem diagnostics_tabbed (file : String) : (parseText (String.ofList (tabbed n)) file).2.diagnostics =
    (parse (⟨[')'], n, file⟩ : Scanner)).2.diagnostics := by
  have htabs : ∀ c ∈ List.replicate n '\t', Text.isBlank c = true := fun c hc => by
    rw [List.eq_of_mem_replicate hc]
    decide
  have hparen : ∀ c, [')'].head? = some c → Text.isBlank c = false := by
    rintro _ ⟨⟩
    decide
  have hdrain := Scanner.drain_blanks_append htabs hparen 0 file
  rw [byteLength_tabs, Nat.zero_add] at hdrain
  rw [parseText, Scanner.ofString, Scanner.ofChars, String.toList_ofList, tabbed]
  exact (parse_of_drain_eq hdrain).diagnostics

theorem placeOf_tabbed : Text.placeOf (tabbed n) n = some ⟨1, tabbed n, n⟩ := by
  have hle : n ≤ Text.byteLength (tabbed n) := by
    rw [tabbed, Text.byteLength_append, byteLength_tabs]
    exact Nat.le_add_right _ _
  rw [Text.placeOf, Text.lines, Text.pieces_of_not_mem (by simp [tabbed]) (newline_not_mem_tabbed n),
    Text.placeIn, if_pos hle]

theorem caretColumn_tabbed : Diagnostic.caretColumn ⟨1, tabbed n, n⟩ = n := by
  have hindent : Diagnostic.indentation (tabbed n) = 0 := by
    cases n with
    | zero => rfl
    | succ n => rw [Diagnostic.indentation, tabbed, List.replicate_succ, List.cons_append,
        List.takeWhile_cons_of_neg (by decide)]; rfl
  rw [Diagnostic.caretColumn, hindent, Nat.sub_zero]

theorem inputLines_tabbed : inputLines (String.ofList (tabbed n)).toUTF8.toList =
    [bytesOf (String.ofList (tabbed n))] := by
  have hlines : IsLines (bytesOf (String.ofList (tabbed n))) [bytesOf (String.ofList (tabbed n))] := by
    rw [bytesOf_ofList]
    refine .last ?_ fun h => newline_not_mem_tabbed n (newline_mem_of_bytes h)
    rw [tabbed, List.flatMap_append]
    exact List.append_ne_nil_of_right_ne_nil _ (by decide)
  exact hlines.eq_inputLines.symm

end

theorem answer_tabbed : answer .ast (String.ofList (tabbed 65535)) = ⟨"", some (.width 65536)⟩ := by
  have hdiagnostics : (parseText (String.ofList (tabbed 65535)) Scanner.defaultFile).2.diagnostics =
      #[⟨.noExpression .closeParen, ⟨65535, "shell"⟩⟩] := by
    rw [diagnostics_tabbed]
    decide +kernel
  have hplace : Text.placeOf (String.ofList (tabbed 65535)).toList (65535 : UInt32).toNat =
      some ⟨1, tabbed 65535, 65535⟩ := by
    rw [String.toList_ofList]
    exact placeOf_tabbed 65535
  have hreport := Diagnostic.report_of_le (d := ⟨.noExpression .closeParen, ⟨65535, "shell"⟩⟩) hplace
    (Nat.le_of_eq (caretColumn_tabbed 65535).symm)
  rw [caretColumn_tabbed] at hreport
  rw [answer_ast_of_ne_empty (by rw [hdiagnostics]; decide), hdiagnostics, reports, hreport]

/-- A session that shows programs is aborted at this line. It writes one prompt, and neither an answer nor
a prompt behind it. -/
theorem run_tabbed_aborted :
    inputLines (String.ofList (tabbed 65535)).toUTF8.toList = [bytesOf (String.ofList (tabbed 65535))] ∧
    run .ast (String.ofList (tabbed 65535)).toUTF8 = (">> ", .aborted (.width 65536)) ∧
    ∀ body, (run .ast (String.ofList (tabbed 65535)).toUTF8).1 ≠ ">> " ++ body ++ ">> " := by
  have hlines := inputLines_tabbed 65535
  have hsplit : inputLines (String.ofList (tabbed 65535)).toUTF8.toList =
      [].map bytesOf ++ bytesOf (String.ofList (tabbed 65535)) :: [] := hlines
  have hrun := run_of_fault hsplit (by simp) (congrArg Answer.fault? answer_tabbed)
  rw [answer_tabbed, List.map_nil, String.join_nil, String.empty_append, String.append_empty] at hrun
  refine ⟨hlines, hrun, fun body hbody => ?_⟩
  rw [hrun] at hbody
  have hlength := congrArg String.length hbody
  simp only [String.length_append, prompt, show ">> ".length = 3 by decide] at hlength
  omega

end Session

end MonkeyFrontEnd
