import MonkeyFront.Proofs.Parser.BlankSpace
import MonkeyFront.Proofs.Parser.Completeness

/-!
# Chains of operators

Operands with binary operators between them, as many as one likes. The tree of a chain is said
without the parser: the weakest operator is at the root, the rightmost one if there are several, and
what stands to the left and to the right of it are chains again. The operators of a chain take up
four levels at most, however many there are.
-/

namespace MonkeyFront

open Grammar

/-- The signs between the operands of a chain. -/
def binaryOperators : List Sign :=
  [.plus, .minus, .asterisk, .slash, .less, .greater, .equal, .notEqual]

/-- An operand of a chain: a name, an integer, a truth value or an expression in parentheses, but
also whatever else binds as tightly. It is nested no deeper than is possible below all binary
operators. -/
structure Operand where
  text : String
  tree : Expression
  head : Token
  tail : List Token
  nesting : Nat
  scanned : tokenize text = head :: tail ++ [Token.eof]
  derives : Derives (.expression .call tree) nesting (head :: tail)
  inRange : ∀ token ∈ head :: tail, token.kind = .int →
    token.literal.toList.length ≤ 4300 ∧ decimalValue token.literal.toList ≤ maxInteger
  nesting_le : nesting ≤ 96

/-- A name as an operand. -/
def Operand.ofName (name : String) (h : tokenize name = [⟨.ident, name⟩, Token.eof]) : Operand where
  text := name
  tree := .identifier ⟨⟨.ident, name⟩, name⟩
  head := ⟨.ident, name⟩
  tail := []
  nesting := 1
  scanned := h
  derives := .name rfl
  inRange := by simp
  nesting_le := by decide

/-- An operator of a chain and the operand to the right of it. -/
structure Link where
  operator : Sign
  operand : Operand
  binary : operator ∈ binaryOperators

namespace Link

/-- How tightly the operator of a link binds. -/
def level (link : Link) : Nat := (Kind.sign link.operator).precedence.level

def token (link : Link) : Token := .ofSign link.operator

theorem exists_stratum (link : Link) :
    ∃ stratum : Stratum, link.operator ∈ stratum.operators ∧
      stratum.strength.level = link.level := by
  have hparen : link.operator ≠ .leftParen := by
    intro hp
    exact absurd (hp ▸ link.binary) (by decide)
  have hsome : ∀ sign ∈ binaryOperators,
      sign.precedence? = some (Kind.sign sign).precedence := by decide
  obtain ⟨stratum, hmem, hs⟩ := Stratum.exists_mem_operators (hsome _ link.binary) hparen
  exact ⟨stratum, hmem, congrArg Precedence.level hs⟩

end Link

namespace Chain

/-! ## The tree of a chain -/

/-- A row of links in three parts: the rightmost of those that bind weakest, and what is before and
after it. -/
structure Split (links : List Link) where
  before : List Link
  weakest : Link
  after : List Link
  whole : links = before ++ weakest :: after
  before_ge : ∀ link ∈ before, weakest.level ≤ link.level
  after_gt : ∀ link ∈ after, weakest.level < link.level

theorem Split.weakest_mem {links : List Link} (parts : Split links) : parts.weakest ∈ links := by
  obtain ⟨before, weakest, after, rfl, -, -⟩ := parts
  simp

theorem Split.weakest_le {links : List Link} (parts : Split links) :
    ∀ link ∈ links, parts.weakest.level ≤ link.level := by
  intro link hm
  rw [parts.whole, List.mem_append, List.mem_cons] at hm
  rcases hm with hb | rfl | ha
  · exact parts.before_ge link hb
  · exact Nat.le_refl _
  · exact Nat.le_of_lt (parts.after_gt link ha)

def split (first : Link) : (others : List Link) → Split (first :: others)
  | [] => ⟨[], first, [], rfl, by simp, by simp⟩
  | second :: others =>
    let parts := split second others
    if h : first.level < parts.weakest.level then
      ⟨[], first, second :: others, rfl, by simp,
        fun link hm => Nat.lt_of_lt_of_le h (parts.weakest_le link hm)⟩
    else
      ⟨first :: parts.before, parts.weakest, parts.after, congrArg (first :: ·) parts.whole,
        List.forall_mem_cons.mpr ⟨Nat.le_of_not_lt h, parts.before_ge⟩, parts.after_gt⟩

theorem Split.length {links : List Link} (parts : Split links) :
    links.length = parts.before.length + parts.after.length + 1 := by
  have := congrArg List.length parts.whole
  simp only [List.length_append, List.length_cons] at this
  omega

/-- The tree of a chain, from its first operand and the links after that. -/
def tree (first : Operand) (links : List Link) : Expression :=
  match links with
  | [] => first.tree
  | link :: others =>
    let parts := split link others
    .binary parts.weakest.token (tree first parts.before) parts.weakest.operator.spelling
      (tree parts.weakest.operand parts.after)
termination_by links.length
decreasing_by
  · have := (split link others).length
    omega
  · have := (split link others).length
    omega

/-! ## The text of a chain -/

/-- A chain in writing, with a space on each side of an operator. -/
def text (first : Operand) : List Link → String
  | [] => first.text
  | link :: others =>
    first.text ++ " " ++ link.operator.spelling ++ " " ++ text link.operand others

def tokens (first : Operand) : List Link → List Token
  | [] => first.head :: first.tail
  | link :: others => first.head :: first.tail ++ link.token :: tokens link.operand others

theorem tokens_append (first : Operand) (before : List Link) (link : Link) (after : List Link) :
    tokens first (before ++ link :: after) =
      tokens first before ++ link.token :: tokens link.operand after := by
  induction before generalizing first with
  | nil => rfl
  | cons head before ih => simp [tokens, ih]

def space : BlankSpace where
  text := " "
  nonempty := by decide
  blank c hc := by
    obtain rfl : c = ' ' := by simpa using hc
    rfl

theorem tokenize_spelling (mark : Sign) :
    tokenize mark.spelling = [.ofSign mark, Token.eof] := by
  rw [← munch_toList, ← List.append_nil mark.spelling.toList, munch_ofSign mark (by simp),
    munch_of_none rfl]

theorem tokenize_text (first : Operand) (links : List Link) :
    tokenize (text first links) = tokens first links ++ [Token.eof] := by
  have hspace (a b : String) : tokenize (a ++ " " ++ b) = (tokenize a).dropLast ++ tokenize b :=
    tokenize_blankSpace a b space
  induction links generalizing first with
  | nil => exact first.scanned
  | cons link others ih =>
      rw [text, hspace, hspace, first.scanned, List.dropLast_concat, tokenize_spelling, ih,
        List.append_cons, List.dropLast_concat]
      simp [tokens, Link.token]

/-! ## What a chain derives -/

theorem lt_unary_of_mem {stratum : Stratum} {sign : Sign} (h : sign ∈ stratum.operators) :
    stratum.strength.level < Precedence.unary.level := by
  cases stratum <;> first | decide | simp [Stratum.operators] at h

/-- The levels that the operators from a stratum on can take up. -/
def levelsFrom (stratum : Stratum) : Nat := Precedence.unary.level - stratum.strength.level

/-- A chain of operators that bind as tightly as a stratum or tighter derives the stratum. It opens
one level for each stratum and not one for each operator. -/
theorem derives (first : Operand) (links : List Link) (stratum : Stratum)
    (h : ∀ link ∈ links, stratum.strength.level ≤ link.level) :
    ∃ nesting, nesting ≤ 96 + levelsFrom stratum ∧
      Derives (.expression stratum (tree first links)) nesting (tokens first links) := by
  fun_induction tree first links generalizing stratum with
  | case1 first =>
      exact ⟨first.nesting, Nat.le_add_right_of_le first.nesting_le,
        first.derives.loosen stratum.strength.level_le_call⟩
  | case2 first link others parts ihl ihr =>
      obtain ⟨own, hmem, hown⟩ := parts.weakest.exists_stratum
      have hnext := Stratum.level_next_of_mem hmem
      have hunary := lt_unary_of_mem hmem
      have hle : stratum.strength.level ≤ own.strength.level := by
        rw [hown]
        exact h _ parts.weakest_mem
      -- To the left the operator's own stratum goes on; to the right all operators bind tighter.
      obtain ⟨m, hm, hleft⟩ := ihl own fun link hl => hown ▸ parts.before_ge link hl
      obtain ⟨n, hn, hright⟩ := ihr own.next fun link hl => by
        rw [hnext, hown]
        exact parts.after_gt link hl
      refine ⟨max m (n + 1), ?_, ?_⟩
      · simp only [levelsFrom, hnext] at hm hn ⊢
        omega
      · have htokens := (congrArg (tokens first) parts.whole).trans (tokens_append _ _ _ _)
        rw [htokens]
        exact (Derives.binary hleft rfl hmem hright).loosen hle

theorem readable (first : Operand) (links : List Link) :
    Parser.Readable (tokens first links) := by
  have hoperand (operand : Operand) : Parser.Readable (operand.head :: operand.tail) :=
    Parser.readable_of_tokenize operand.inRange operand.scanned
  induction links generalizing first with
  | nil => exact hoperand first
  | cons link others ih =>
      simp only [tokens, Parser.readable_append, Parser.readable_cons]
      exact ⟨Parser.readable_cons.mp (hoperand first), by simp [Link.token], ih link.operand⟩

theorem exists_tokens (first : Operand) (links : List Link) :
    ∃ others, tokens first links = first.head :: others := by
  cases links <;> exact ⟨_, rfl⟩

end Chain

/-- A chain of any length is one expression statement without errors, and its tree is split at the
rightmost of the weakest operators. -/
theorem parse_chain (first : Operand) (links : List Link) :
    (parse (Chain.text first links)).errors = [] ∧
      (parse (Chain.text first links)).program.statements =
        [.expression first.head (some (Chain.tree first links))] := by
  obtain ⟨nesting, hn, hd⟩ := Chain.derives first links .equality fun link _ => by
    obtain ⟨stratum, -, hs⟩ := link.exists_stratum
    rw [← hs]
    exact stratum.equality_le
  have hread := Chain.readable first links
  have hscan := Chain.tokenize_text first links
  obtain ⟨others, ht⟩ := Chain.exists_tokens first links
  rw [ht] at hd hread hscan
  have hstatements : Derives (.statements [.expression first.head (some (Chain.tree first links))])
      (max nesting 0) (first.head :: others ++ []) :=
    .statements (.bare hd) .noStatements (.inr (by simp))
  have hle : max nesting 0 ≤ Parser.maxDepth := by
    have hlevels : Chain.levelsFrom .equality = 4 := rfl
    have hmax : Parser.maxDepth = 100 := rfl
    omega
  rw [Parser.parse_of_derives hstatements hle (by simpa using hread) (by simpa using hscan)]
  exact ⟨rfl, rfl⟩

/-- The right one of the two weakest operators is at the root. -/
example :
    let first := Operand.ofName "a" (by decide +kernel)
    let links : List Link :=
      [⟨.asterisk, .ofName "b" (by decide +kernel), by decide⟩,
        ⟨.minus, .ofName "c" (by decide +kernel), by decide⟩,
        ⟨.plus, .ofName "d" (by decide +kernel), by decide⟩,
        ⟨.slash, .ofName "e" (by decide +kernel), by decide⟩]
    Chain.text first links = "a * b - c + d / e" ∧
      (Chain.tree first links).render = "(((a * b) - c) + (d / e))" := by
  decide +kernel

end MonkeyFront
