import DocWatch.Proofs.Chunk.Shape
import DocWatch.Proofs.Text.Run
import Mathlib.Data.List.Chain

/-!
# Paragraphs and segments block by block

Paragraphs and segments do not pair off. A segment may hold many paragraphs, and a long
paragraph goes into many segments. But both rows can be divided at the same places: a
block is either some whole paragraphs in one segment or one long paragraph in several,
and it shows the same characters on both sides.

So the paragraph of a segment, or the segment of a paragraph, is found by its block, and
the place of a block is known by how many characters are shown in front of it.
-/

namespace DocWatch

open Text

/-- Paragraphs in a row that are laid out together, and the heading they are under. -/
structure Block where
  heading : Option (List Char)
  first : List Char
  more : List (List Char)

namespace Block

def paras (b : Block) : List (List Char) :=
  b.first :: b.more

def segments (limit : Nat) (b : Block) : List Segment :=
  if limit < byteLength b.first then (cutPieces limit b.first).map (Segment.mk b.heading)
  else [⟨b.heading, joined b.first b.more⟩]

structure Sound (limit : Nat) (b : Block) : Prop where
  plain : ∀ next ∈ b.more, titleOf? next = none
  alone : limit < byteLength b.first → b.more = []
  fits : byteLength b.first ≤ limit → byteLength (joined b.first b.more) ≤ limit

/-- The segment of the first block could not have taken up any of the second one. -/
def Parted (limit : Nat) (b b' : Block) : Prop :=
  byteLength b.first ≤ limit → titleOf? b'.first ≠ none ∨
    limit < byteLength (joined b.first b.more) + 2 + byteLength b'.first

end Block

/-- The title of the last heading among some paragraphs. -/
def lastTitle (paras : List (List Char)) : Option (List Char) :=
  (paras.filterMap titleOf?).getLast?

/-- A layout, divided in blocks. -/
structure Blocks (limit : Nat) (heading : Option (List Char)) (paras : List (List Char))
    (segments : List Segment) (blocks : List Block) : Prop where
  paras_eq : blocks.flatMap Block.paras = paras
  segments_eq : blocks.flatMap (Block.segments limit) = segments
  sound : ∀ b ∈ blocks, b.Sound limit
  heading_eq : ∀ front b back, blocks = front ++ b :: back →
    b.heading = (lastTitle (front.flatMap Block.paras ++ [b.first])).or heading

variable {limit : Nat} {heading : Option (List Char)} {para next : List Char}
  {before after more paras x y : List (List Char)} {segments u v : List Segment}
  {blocks front back : List Block} {b : Block} {s : Segment}

theorem Block.segments_of_short (h : byteLength b.first ≤ limit) :
    b.segments limit = [⟨b.heading, joined b.first b.more⟩] :=
  if_neg (Nat.not_lt.2 h)

theorem Block.segments_of_long (h : limit < byteLength b.first) :
    b.segments limit = (cutPieces limit b.first).map (Segment.mk b.heading) :=
  if_pos h

/-! ## Titles -/

theorem lastTitle_append (before after : List (List Char)) :
    lastTitle (before ++ after) = (lastTitle after).or (lastTitle before) := by
  rw [lastTitle, List.filterMap_append, List.getLast?_append]
  rfl

theorem lastTitle_singleton (para : List Char) : lastTitle [para] = titleOf? para := by
  cases htitle : titleOf? para <;> simp [lastTitle, htitle]

theorem lastTitle_of_plain (h : ∀ para ∈ paras, titleOf? para = none) : lastTitle paras = none := by
  rw [lastTitle, List.filterMap_eq_nil_iff.2 h]
  rfl

theorem Block.Sound.lastTitle_paras (h : b.Sound limit) : lastTitle b.paras = titleOf? b.first := by
  rw [paras, ← List.singleton_append, lastTitle_append, lastTitle_of_plain h.plain, Option.none_or,
    lastTitle_singleton]

theorem Blocks.nil : Blocks limit heading [] [] [] where
  paras_eq := rfl
  segments_eq := rfl
  sound := nofun
  heading_eq := by
    intro front b back h
    cases (List.append_eq_nil_iff.1 h.symm).2

theorem Blocks.cons (hb : b.Sound limit) (hheading : b.heading = (titleOf? b.first).or heading)
    (h : Blocks limit b.heading paras segments blocks) :
    Blocks limit heading (b.paras ++ paras) (b.segments limit ++ segments) (b :: blocks) where
  paras_eq := by rw [List.flatMap_cons, h.paras_eq]
  segments_eq := by rw [List.flatMap_cons, h.segments_eq]
  sound := by
    intro b' hb'
    rcases List.mem_cons.1 hb' with rfl | hb'
    · exact hb
    · exact h.sound b' hb'
  heading_eq := by
    intro front b' back heq
    cases front with
    | nil =>
        cases heq
        rw [hheading, List.flatMap_nil, List.nil_append, lastTitle_singleton]
    | cons b₀ front =>
        obtain ⟨rfl, htail : blocks = front ++ b' :: back⟩ := List.cons.inj heq
        rw [h.heading_eq front b' back htail, hheading, List.flatMap_cons, List.append_assoc,
          lastTitle_append b.paras, hb.lastTitle_paras, Option.or_assoc]

theorem head?_flatMap_paras (blocks : List Block) :
    (blocks.flatMap Block.paras).head? = blocks.head?.map Block.first := by
  cases blocks <;> rfl

theorem exists_parted_blocks (h : Laid limit heading paras segments) :
    ∃ blocks, Blocks limit heading paras segments blocks ∧ blocks.IsChain (Block.Parted limit) := by
  induction h with
  | nil => exact ⟨[], .nil, .nil⟩
  | @cut heading para rest behind long _ ih =>
      obtain ⟨blocks, hblocks, hparted⟩ := ih
      let b : Block := ⟨(titleOf? para).or heading, para, []⟩
      have hlong : ¬byteLength para ≤ limit := Nat.not_le.2 long
      have hb : b.Sound limit := ⟨nofun, fun _ => rfl, fun h => absurd h hlong⟩
      have hsegments : b.segments limit = (cutPieces limit para).map (Segment.mk b.heading) :=
        if_pos long
      refine ⟨b :: blocks, ?_, List.isChain_cons.2 ⟨fun _ _ h => absurd h hlong, hparted⟩⟩
      rw [← hsegments]
      exact .cons hb rfl hblocks
  | @joined heading para more rest behind plain fits full _ ih =>
      obtain ⟨blocks, hblocks, hparted⟩ := ih
      let b : Block := ⟨(titleOf? para).or heading, para, more⟩
      have hshort : ¬limit < byteLength para := by
        rw [joined, byteLength_append] at fits
        omega
      have hb : b.Sound limit := ⟨plain, fun h => absurd h hshort, fun _ => fits⟩
      have hsegments : b.segments limit = [⟨b.heading, joined para more⟩] := if_neg hshort
      have hfull : ∀ b' ∈ blocks.head?, b.Parted limit b' := by
        intro b' hb' _
        refine full b'.first ?_
        rw [← hblocks.paras_eq, head?_flatMap_paras]
        exact Option.mem_map_of_mem _ hb'
      refine ⟨b :: blocks, ?_, List.isChain_cons.2 ⟨hfull, hparted⟩⟩
      have hcons := Blocks.cons hb rfl hblocks
      rwa [hsegments] at hcons

theorem exists_blocks (h : Laid limit heading paras segments) :
    ∃ blocks, Blocks limit heading paras segments blocks := by
  obtain ⟨blocks, hblocks, -⟩ := exists_parted_blocks h
  exact ⟨blocks, hblocks⟩

/-! ## Places -/

theorem exists_of_flatMap_eq {α β : Type} {f : α → List β} {l : List α} {front back : List β}
    {c : β} (h : l.flatMap f = front ++ c :: back) :
    ∃ l₁ a l₂ x y, l = l₁ ++ a :: l₂ ∧ f a = x ++ c :: y ∧ front = l₁.flatMap f ++ x ∧
      back = y ++ l₂.flatMap f := by
  induction l generalizing front with
  | nil => cases (List.append_eq_nil_iff.1 h.symm).2
  | cons a l ih =>
      have hsplit : front ++ c :: back = [] ++ f a ++ l.flatMap f := h.symm
      rcases append_cons_eq_append hsplit with ⟨rest, hnil, -⟩ | ⟨_, y, ha, rfl, rfl⟩ |
        ⟨rest, hl, rfl⟩
      · cases (List.append_eq_nil_iff.1 hnil.symm).2
      · exact ⟨[], a, l, front, y, rfl, ha, rfl, rfl⟩
      · obtain ⟨l₁, a', l₂, x, y, rfl, ha, rfl, hback⟩ := ih hl
        refine ⟨a :: l₁, a', l₂, x, y, rfl, ha, ?_, hback⟩
        rw [List.nil_append, List.flatMap_cons, List.append_assoc]

/-- How many characters of some texts can be seen. -/
def visibleCount (texts : List (List Char)) : Nat :=
  (texts.flatMap visible).length

@[simp] theorem visibleCount_nil : visibleCount [] = 0 :=
  rfl

theorem visibleCount_append (texts texts' : List (List Char)) :
    visibleCount (texts ++ texts') = visibleCount texts + visibleCount texts' := by
  rw [visibleCount, List.flatMap_append, List.length_append]
  rfl

theorem visibleCount_cons (text : List Char) (texts : List (List Char)) :
    visibleCount (text :: texts) = (visible text).length + visibleCount texts := by
  rw [visibleCount, List.flatMap_cons, List.length_append]
  rfl

theorem Block.Sound.visibleCount_segments (h : b.Sound limit) :
    visibleCount ((b.segments limit).map Segment.text) = visibleCount b.paras := by
  rw [Block.segments, Block.paras]
  split
  · rename_i hlong
    rw [h.alone hlong, List.map_map, visibleCount, visibleCount, List.flatMap_singleton]
    have hpieces := visible_cutPieces limit b.first
    show (((cutPieces limit b.first).map id).flatMap visible).length = _
    rw [List.map_id, hpieces]
  · show visibleCount [joined b.first b.more] = _
    rw [visibleCount, List.flatMap_singleton, visible_joined]
    rfl

/-- As many characters are shown in the segments of some blocks as in their paragraphs. -/
theorem visibleCount_blocks (h : ∀ b ∈ blocks, b.Sound limit) :
    visibleCount ((blocks.flatMap (Block.segments limit)).map Segment.text) =
      visibleCount (blocks.flatMap Block.paras) := by
  induction blocks with
  | nil => rfl
  | cons b blocks ih =>
      have hb := (h b List.mem_cons_self).visibleCount_segments
      have hrest := ih fun b' hb' => h b' (List.mem_cons_of_mem b hb')
      rw [List.flatMap_cons, List.flatMap_cons, List.map_append, visibleCount_append,
        visibleCount_append, hb, hrest]

namespace Blocks

/-- A block stands behind as much as the blocks in front of it show, on both sides. -/
theorem place (h : Blocks limit heading paras segments (front ++ b :: back)) :
    visibleCount ((front.flatMap (Block.segments limit)).map Segment.text) =
      visibleCount (front.flatMap Block.paras) :=
  visibleCount_blocks fun b hb => h.sound b (List.mem_append_left _ hb)

theorem paras_around (h : Blocks limit heading paras segments (front ++ b :: back)) :
    paras = front.flatMap Block.paras ++ b.paras ++ back.flatMap Block.paras := by
  rw [← h.paras_eq, List.flatMap_append, List.flatMap_cons, List.append_assoc]

theorem segments_around (h : Blocks limit heading paras segments (front ++ b :: back)) :
    segments = front.flatMap (Block.segments limit) ++ b.segments limit ++
      back.flatMap (Block.segments limit) := by
  rw [← h.segments_eq, List.flatMap_append, List.flatMap_cons, List.append_assoc]

end Blocks

/-! ## Which paragraphs begin a block -/

theorem Block.first_or_mem_more (hpara : b.paras = x ++ para :: y) :
    (x = [] ∧ para = b.first) ∨ para ∈ b.more := by
  cases x with
  | nil =>
      cases hpara
      exact .inl ⟨rfl, rfl⟩
  | cons first x =>
      obtain ⟨-, hmore : b.more = x ++ para :: y⟩ := List.cons.inj hpara
      rw [hmore]
      exact .inr (List.mem_append_right _ List.mem_cons_self)

namespace Block.Sound

theorem first_of_title (h : b.Sound limit) (hpara : b.paras = x ++ para :: y)
    (htitle : titleOf? para ≠ none) : x = [] ∧ para = b.first := by
  rcases first_or_mem_more hpara with hfirst | hmem
  · exact hfirst
  · exact absurd (h.plain para hmem) htitle

theorem first_of_long (h : b.Sound limit) (hpara : b.paras = x ++ para :: y)
    (hlong : limit < byteLength para) : x = [] ∧ para = b.first := by
  rcases first_or_mem_more hpara with hfirst | hmem
  · exact hfirst
  · rcases Nat.lt_or_ge limit (byteLength b.first) with hcut | hshort
    · rw [h.alone hcut] at hmem
      cases hmem
    · have hfits := h.fits hshort
      have hle : byteLength para ≤ byteLength (joined b.first b.more) :=
        byteLength_le_of_isInfix (isInfix_joined (List.mem_cons_of_mem _ hmem))
      omega

end Block.Sound

end DocWatch
