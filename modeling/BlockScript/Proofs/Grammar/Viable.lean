import BlockScript.Proofs.Grammar.Acceptance
import BlockScript.Proofs.Grammar.Completion
import BlockScript.Proofs.Grammar.Concatenation
import BlockScript.Proofs.Grammar.Relabel

/-!
# Errors are found as early as can be

## Main result

`viable_prefix`: the tokens in front of the one that the first fatal error is blamed on are the
beginning of a program; with that token they are the beginning of none.

## Proof strategy

1. There is a token that spoils the text, or it is the end of the text that does
   (`exists_spoils`).
2. The error is blamed on that token, and whatever follows does not change that
   (`Spoils.firstFatal?_eq`). Lines do not matter, so the same holds for the numbered tokens,
   which tells the place (`Spoils.blamedAt?_eq`).
3. What stands in front of the token can be completed (`exists_completion`).
-/

namespace BlockScript.Grammar

open Parse

/-- The first error that is not about an assignment target. -/
def firstFatal? (tokens : List Token) : Option Error :=
  (ofTokens tokens).errors.find? (fun error => error.report.message != "Invalid assignment target.")

/-- What a parse looks at: the text and the mark of its end. -/
def looksAt (tokens : List Token) : List Token :=
  text tokens ++ [endMark tokens]

/-- The tokens with their places for lines. -/
def numbered (tokens : List Token) : List Token :=
  tokens.mapIdx fun index token => { token with line := index }

/-- The place of the token that the first fatal error is blamed on. No parse looks at lines, so
the tokens are numbered by them. -/
def blamedAt? (tokens : List Token) : Option Nat :=
  (firstFatal? (numbered (looksAt tokens))).map (·.token.line)

/-- What is in hand after some tokens. -/
def reading (tokens : List Token) : State :=
  tokens.foldl State.step State.initial

theorem reading_append (tokens more : List Token) :
    reading (tokens ++ more) = more.foldl State.step (reading tokens) :=
  List.foldl_append

/-! ### The first fatal error -/

theorem firstFatal?_eq (tokens : List Token) :
    firstFatal? tokens = (ofTokens tokens).errors.find? (·.fault.isFatal) := by
  unfold firstFatal?
  congr 1
  funext error
  rw [Bool.eq_iff_iff, bne_iff_ne, ne_eq, message_eq_iff, Bool.not_eq_false]

theorem find?_eq_none {errors : List Error} (sound : ¬ Spoiled errors) :
    errors.find? (·.fault.isFatal) = none := by
  rw [List.find?_eq_none]
  intro error member fatal
  exact sound ⟨error, member, fatal⟩

/-- Errors become fatal by one that is blamed on the token. -/
theorem exists_fault {token : Token} {errors after : List Error}
    (adds : Adds token errors after) (sound : ¬ Spoiled errors) (spoiled : Spoiled after) :
    ∃ fault earlier, after = ⟨fault, token⟩ :: earlier ∧ fault.isFatal = true ∧
      ¬ Spoiled earlier := by
  cases adds with
  | targets more bad =>
    exact absurd (spoiled_append.mp spoiled) (not_or.mpr ⟨not_spoiled_targets bad, sound⟩)
  | blamed more bad fault =>
    have soundEarlier : ¬ Spoiled (more ++ errors) := by
      rw [spoiled_append]
      exact not_or.mpr ⟨not_spoiled_targets bad, sound⟩
    obtain ⟨error, member, fatal⟩ := spoiled
    rcases List.mem_cons.mp member with rfl | earlier
    · exact ⟨fault, _, rfl, fatal, soundEarlier⟩
    · exact absurd ⟨error, earlier, fatal⟩ soundEarlier

/-! ### Where a text is spoiled -/

/-- Whether nothing is wrong with the text before a token, and the token spoils it. -/
structure Spoils (before : List Token) (token : Token) : Prop where
  plain : ∀ other ∈ before, other.isEnd = false
  plainToken : token.isEnd = false
  sound : ¬ Spoiled (reading before).errors
  spoiled : Spoiled ((reading before).step token).errors

theorem exists_spoils {tokens : List Token} (plain : ∀ token ∈ tokens, token.isEnd = false)
    (spoiled : Spoiled (reading tokens).errors) :
    ∃ before token after, tokens = before ++ token :: after ∧ Spoils before token := by
  induction tokens using List.reverseRecOn with
  | nil =>
    obtain ⟨error, member, _⟩ := spoiled
    cases member
  | append_singleton tokens token ih =>
    have plainBefore : ∀ other ∈ tokens, other.isEnd = false :=
      fun other member => plain other (List.mem_append_left _ member)
    by_cases earlier : Spoiled (reading tokens).errors
    · obtain ⟨before, first, after, rfl, spoils⟩ := ih plainBefore earlier
      exact ⟨before, first, after ++ [token], by simp, spoils⟩
    · rw [reading_append] at spoiled
      exact ⟨tokens, token, [], rfl, plainBefore, plain token (by simp), earlier, spoiled⟩

theorem Spoils.text_eq {before : List Token} {token : Token} (spoils : Spoils before token)
    (rest : List Token) : text (before ++ token :: rest) = before ++ token :: text rest := by
  rw [text_append spoils.plain]
  simp [text, spoils.plainToken]

/-- The first fatal error is blamed on the token that spoils the text, whatever follows. -/
theorem Spoils.firstFatal?_eq {before : List Token} {token : Token}
    (spoils : Spoils before token) :
    ∃ fault, ∀ rest, firstFatal? (before ++ token :: rest) = some ⟨fault, token⟩ := by
  obtain ⟨fault, earlier, spoiledBy, fatal, soundEarlier⟩ :=
    exists_fault (State.adds_step (reading before) token) spoils.sound spoils.spoiled
  refine ⟨fault, fun rest => ?_⟩
  have kept : ((reading before).step token).errors <:+
      ((reading (before ++ token :: text rest)).atEnd
        (endMark (before ++ token :: rest))).errors := by
    refine List.IsSuffix.trans ?_ (State.suffix_atEnd _ _)
    rw [reading_append, List.foldl_cons]
    exact State.suffix_foldl (text rest) _
  obtain ⟨later, same⟩ := kept
  rw [Grammar.firstFatal?_eq, ofTokens, ← text, spoils.text_eq, State.finish, ← reading, ← same,
    spoiledBy]
  simp [find?_eq_none (mt spoiled_reverse.mp soundEarlier), fatal]

/-- The first fatal error is blamed on the end of a text that is not spoiled before. -/
theorem token_of_sound {tokens : List Token} {error : Error}
    (sound : ¬ Spoiled (reading (text tokens)).errors) (found : firstFatal? tokens = some error) :
    error.token = endMark tokens := by
  rw [firstFatal?_eq] at found
  have fatal := List.find?_some found
  have member := List.mem_of_find?_eq_some found
  rcases List.mem_append.mp member with last | unclosed
  · have spoiled : Spoiled ((reading (text tokens)).atEnd (endMark tokens)).errors :=
      ⟨error, List.mem_reverse.mp last, fatal⟩
    obtain ⟨fault, earlier, same, _, soundEarlier⟩ :=
      exists_fault (State.adds_atEnd (reading (text tokens)) (endMark tokens)) sound spoiled
    have among : error ∈ (⟨fault, endMark tokens⟩ :: earlier : List Error) :=
      same ▸ List.mem_reverse.mp last
    rcases List.mem_cons.mp among with rfl | early
    · rfl
    · exact absurd ⟨error, early, fatal⟩ soundEarlier
  · obtain ⟨_, _, rfl⟩ := List.mem_map.mp unclosed
    rfl

/-! ### Places -/

theorem reading_map {f : Token → Token} (relabels : Relabels f) (tokens : List Token) :
    reading (tokens.map f) = (reading tokens).map f :=
  State.foldl_step_map relabels tokens State.initial

theorem spoiled_map {f : Token → Token} {errors : List Error} :
    Spoiled (errors.map (Error.map f)) ↔ Spoiled errors := by
  simp [Spoiled, Error.map]

/-- Tokens that differ in their lines only are spoiled alike. -/
theorem spoiled_reading_congr (tokens others : List Token)
    (same : tokens.map Token.unlined = others.map Token.unlined) :
    Spoiled (reading tokens).errors ↔ Spoiled (reading others).errors := by
  have alike := congrArg (fun list => Spoiled (reading list).errors) same
  simp only [reading_map relabels_unlined, State.map, spoiled_map] at alike
  exact iff_of_eq alike

theorem isSome_firstFatal?_congr {tokens others : List Token}
    (same : tokens.map Token.unlined = others.map Token.unlined)
    (ended : ∃ token ∈ tokens, token.isEnd = true)
    (endedOther : ∃ token ∈ others, token.isEnd = true) :
    (firstFatal? tokens).isSome = (firstFatal? others).isSome := by
  have errors : ∀ list : List Token, (∃ token ∈ list, token.isEnd = true) →
      (firstFatal? (list.map Token.unlined)).isSome = (firstFatal? list).isSome := by
    intro list ended
    rw [firstFatal?_eq, firstFatal?_eq, ofTokens_map relabels_unlined ended]
    simp [Result.map, List.find?_map, Function.comp_def, Error.map]
  rw [← errors tokens ended, same, errors others endedOther]

theorem map_unlined_numbered (tokens : List Token) :
    (numbered tokens).map Token.unlined = tokens.map Token.unlined := by
  apply List.ext_getElem
  · simp [numbered]
  · intro index _ _
    simp [numbered, Token.unlined]

theorem isEnd_of_mem_numbered {tokens : List Token}
    (plain : ∀ token ∈ tokens, token.isEnd = false) :
    ∀ token ∈ numbered tokens, token.isEnd = false := by
  intro token member
  obtain ⟨index, small, rfl⟩ := List.mem_mapIdx.mp member
  exact plain tokens[index] (List.getElem_mem small)

theorem numbered_append_cons (before : List Token) (token : Token) (rest : List Token) :
    ∃ more, numbered (before ++ token :: rest) =
      numbered before ++ { token with line := before.length } :: more := by
  simp [numbered, List.mapIdx_append, List.mapIdx_cons]

/-- The token that spoils the text has the same place among the numbered tokens. -/
theorem Spoils.numbered {before : List Token} {token : Token} (spoils : Spoils before token) :
    Spoils (numbered before) { token with line := before.length } where
  plain := isEnd_of_mem_numbered spoils.plain
  plainToken := spoils.plainToken
  sound := by
    rw [spoiled_reading_congr _ before (map_unlined_numbered before)]
    exact spoils.sound
  spoiled := by
    have alike := spoiled_reading_congr
      (Grammar.numbered before ++ [{ token with line := before.length }]) (before ++ [token])
      (by simp [map_unlined_numbered, Token.unlined])
    rw [reading_append, reading_append] at alike
    exact alike.mpr spoils.spoiled

theorem Spoils.blamedAt?_eq {tokens before rest : List Token} {token : Token}
    (spoils : Spoils before token) (parts : text tokens = before ++ token :: rest) :
    blamedAt? tokens = some before.length := by
  obtain ⟨fault, blames⟩ := spoils.numbered.firstFatal?_eq
  obtain ⟨more, numbers⟩ := numbered_append_cons before token (rest ++ [endMark tokens])
  rw [blamedAt?, looksAt, parts, List.append_assoc, List.cons_append, numbers, blames]
  rfl

/-- A text ends where its first mark is. -/
theorem text_mark {tokens : List Token} (plain : ∀ token ∈ tokens, token.isEnd = false)
    {mark : Token} (ends : mark.isEnd = true) (more : List Token) :
    text (tokens ++ mark :: more) = tokens ∧ endMark (tokens ++ mark :: more) = mark := by
  constructor
  · rw [text_append plain]
    simp [text, ends]
  · have noMark : tokens.find? Token.isEnd = none := by
      rw [List.find?_eq_none]
      intro token member
      simp [plain token member]
    rw [endMark, List.find?_append, noMark, List.find?_cons_of_pos ends]
    rfl

theorem ofTokens_looksAt (tokens : List Token) : ofTokens (looksAt tokens) = ofTokens tokens := by
  obtain ⟨sameText, sameMark⟩ := text_mark (plain_text tokens) (isEnd_endMark tokens) []
  rw [looksAt, ofTokens, ← text, sameText, sameMark]
  rfl

theorem firstFatal?_looksAt (tokens : List Token) :
    firstFatal? (looksAt tokens) = firstFatal? tokens := by
  rw [firstFatal?, firstFatal?, ofTokens_looksAt]

theorem blamedAt?_of_sound {tokens : List Token} {error : Error}
    (sound : ¬ Spoiled (reading (text tokens)).errors) (found : firstFatal? tokens = some error) :
    blamedAt? tokens = some (text tokens).length := by
  let mark : Token := { endMark tokens with line := (text tokens).length }
  obtain ⟨more, parts⟩ := numbered_append_cons (text tokens) (endMark tokens) []
  have ends : mark.isEnd = true := isEnd_endMark tokens
  have plain := isEnd_of_mem_numbered (plain_text tokens)
  obtain ⟨sameText, sameMark⟩ := text_mark plain ends more
  -- The numbered tokens have a fatal error as well.
  have blames : (firstFatal? (numbered (looksAt tokens))).isSome = true := by
    rw [isSome_firstFatal?_congr (map_unlined_numbered (looksAt tokens)), firstFatal?_looksAt,
      found]
    · rfl
    · exact ⟨mark, by simp [looksAt, parts, mark], ends⟩
    · exact ⟨endMark tokens, by simp [looksAt], isEnd_endMark tokens⟩
  obtain ⟨blamed, blames⟩ := Option.isSome_iff_exists.mp blames
  have soundNow : ¬ Spoiled (reading (text (numbered (looksAt tokens)))).errors := by
    rw [looksAt, parts, sameText]
    rwa [spoiled_reading_congr _ (text tokens) (map_unlined_numbered (text tokens))]
  have token : blamed.token = mark := by
    rw [token_of_sound soundNow blames, looksAt, parts, sameMark]
  rw [blamedAt?, blames, Option.map_some, token]

/-! ### Main theorem -/

theorem exists_completion {before : List Token} (plain : ∀ token ∈ before, token.isEnd = false)
    (sound : ¬ Spoiled (reading before).errors) :
    ∃ completion, firstFatal? (before ++ completion) = none := by
  obtain ⟨completion, plainRest, soundRest⟩ := completable_foldl sound
  have plainAll : ∀ token ∈ before ++ completion, token.isEnd = false := by
    intro token member
    rcases List.mem_append.mp member with early | late
    · exact plain token early
    · exact (plainRest token late).1
  have wholeText : text (before ++ completion) = before ++ completion := by
    simpa [text] using text_append plainAll []
  refine ⟨completion, ?_⟩
  rw [firstFatal?_eq, ofTokens, ← text, wholeText, List.foldl_append]
  exact find?_eq_none (soundRest _)

/-- **Errors are found as early as can be.** The first fatal error of a parse is blamed on some
token. What stands in front of that can be continued without a fatal error. With the token, no
continuation makes a difference to the error, unless the token is the mark of the end. -/
theorem viable_prefix {tokens : List Token} {error : Error}
    (found : firstFatal? tokens = some error) :
    ∃ place, blamedAt? tokens = some place ∧ (looksAt tokens)[place]? = some error.token ∧
      (∃ completion, firstFatal? (tokens.take place ++ completion) = none) ∧
      (error.token.isEnd = false → ∀ rest,
        firstFatal? (tokens.take (place + 1) ++ rest) = some error ∧
        blamedAt? (tokens.take (place + 1) ++ rest) = some place) := by
  obtain ⟨behind, parts⟩ : text tokens <+: tokens := List.takeWhile_prefix _
  by_cases spoiled : Spoiled (reading (text tokens)).errors
  · obtain ⟨before, token, after, textParts, spoils⟩ := exists_spoils (plain_text tokens) spoiled
    obtain ⟨fault, blames⟩ := spoils.firstFatal?_eq
    have tokensParts : tokens = before ++ token :: (after ++ behind) := by
      rw [← parts, textParts]
      simp
    obtain rfl : error = ⟨fault, token⟩ := by
      rw [tokensParts, blames] at found
      exact (Option.some.inj found).symm
    refine ⟨before.length, spoils.blamedAt?_eq textParts, ?_, ?_, fun _ rest => ?_⟩
    · simp [looksAt, textParts]
    · rw [tokensParts, List.take_left]
      exact exists_completion spoils.plain spoils.sound
    · have upTo : tokens.take (before.length + 1) = before ++ [token] := by
        rw [tokensParts, List.take_length_add_append]
        rfl
      rw [upTo, List.append_assoc, List.singleton_append]
      exact ⟨blames rest, spoils.blamedAt?_eq (spoils.text_eq rest)⟩
  · -- Nothing is wrong before the end, so that is what the error is blamed on.
    have atMark := token_of_sound spoiled found
    refine ⟨(text tokens).length, blamedAt?_of_sound spoiled found, ?_, ?_, ?_⟩
    · simp [looksAt, atMark]
    · have prefixText : tokens.take (text tokens).length = text tokens :=
        (List.prefix_iff_eq_take.mp ⟨behind, parts⟩).symm
      rw [prefixText]
      exact exists_completion (plain_text tokens) spoiled
    · intro plain
      rw [atMark, isEnd_endMark] at plain
      cases plain

/-- A semicolon stands where the right operand should, in a parenthesis and a block. -/
theorem viable_prefix_operand :
    let tokens := (scan "{ print (1 + ; }").tokens
    blamedAt? tokens = some 5 ∧
      (∃ completion, firstFatal? (tokens.take 5 ++ completion) = none) ∧
      ∀ rest, firstFatal? (tokens.take 6 ++ rest) =
        some ⟨.noExpression, ⟨.symbol .semicolon, ";", none, 1⟩⟩ := by
  intro tokens
  have found : firstFatal? tokens =
      some ⟨.noExpression, ⟨.symbol .semicolon, ";", none, 1⟩⟩ := by decide +kernel
  have blamed : blamedAt? tokens = some 5 := by decide +kernel
  obtain ⟨place, same, -, completed, stays⟩ := viable_prefix found
  obtain rfl : place = 5 := by
    rw [blamed] at same
    exact (Option.some.inj same).symm
  exact ⟨blamed, completed, fun rest => (stays rfl rest).1⟩

end BlockScript.Grammar
