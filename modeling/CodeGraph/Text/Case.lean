import CodeGraph.Text.Letter

/-!
# Letter case

Lower case as the character database maps it, and the simple folding under which letters of
different case are the same.

Two letters have a lower case that depends on more than the letter. The capital sigma is a final
sigma at the end of a word, and the capital I with a dot becomes two characters.
-/

namespace CodeGraph.Text

namespace Case

/-- A distance between code points, written with `>` upwards and `<` downwards. -/
def distance? (s : String) : Option Int :=
  match s.toList with
  | '>' :: ds => some (hexNumber ds)
  | '<' :: ds => some (-(hexNumber ds : Int))
  | _ => none

/-- Letters with the distance to their lower case. -/
private def lowerTable : CodeTable Int := .ofText distance? (String.join [
  "41-5a>20 c0-d6>20 d8-de>20 100/12e>1 132/136>1 139/147>1 14a/176>1 178<79 179/17d>1 181>d2 ",
  "182/184>1 186>ce 187>1 189-18a>cd 18b>1 18e>4f 18f>ca 190>cb 191>1 193>cd 194>cf 196>d3 ",
  "197>d1 198>1 19c>d3 19d>d5 19f>d6 1a0/1a4>1 1a6>da 1a7>1 1a9>da 1ac>1 1ae>da 1af>1 ",
  "1b1-1b2>d9 1b3/1b5>1 1b7>db 1b8>1 1bc>1 1c4>2 1c5>1 1c7>2 1c8>1 1ca>2 1cb/1db>1 1de/1ee>1 ",
  "1f1>2 1f2/1f4>1 1f6<61 1f7<38 1f8/21e>1 220<82 222/232>1 23a>2a2b 23b>1 23d<a3 23e>2a28 ",
  "241>1 243<c3 244>45 245>47 246/24e>1 370/372>1 376>1 37f>74 386>26 388-38a>25 38c>40 ",
  "38e-38f>3f 391-3a1>20 3a3-3ab>20 3cf>8 3d8/3ee>1 3f4<3c 3f7>1 3f9<7 3fa>1 3fd-3ff<82 ",
  "400-40f>50 410-42f>20 460/480>1 48a/4be>1 4c0>f 4c1/4cd>1 4d0/52e>1 531-556>30 ",
  "10a0-10c5>1c60 10c7>1c60 10cd>1c60 13a0-13ef>97d0 13f0-13f5>8 1c89>1 1c90-1cba<bc0 ",
  "1cbd-1cbf<bc0 1e00/1e94>1 1e9e<1dbf 1ea0/1efe>1 1f08-1f0f<8 1f18-1f1d<8 1f28-1f2f<8 ",
  "1f38-1f3f<8 1f48-1f4d<8 1f59/1f5f<8 1f68-1f6f<8 1f88-1f8f<8 1f98-1f9f<8 1fa8-1faf<8 ",
  "1fb8-1fb9<8 1fba-1fbb<4a 1fbc<9 1fc8-1fcb<56 1fcc<9 1fd8-1fd9<8 1fda-1fdb<64 1fe8-1fe9<8 ",
  "1fea-1feb<70 1fec<7 1ff8-1ff9<80 1ffa-1ffb<7e 1ffc<9 2126<1d5d 212a<20bf 212b<2046 2132>1c ",
  "2160-216f>10 2183>1 24b6-24cf>1a 2c00-2c2f>30 2c60>1 2c62<29f7 2c63<ee6 2c64<29e7 ",
  "2c67/2c6b>1 2c6d<2a1c 2c6e<29fd 2c6f<2a1f 2c70<2a1e 2c72>1 2c75>1 2c7e-2c7f<2a3f 2c80/2ce2>1 ",
  "2ceb/2ced>1 2cf2>1 a640/a66c>1 a680/a69a>1 a722/a72e>1 a732/a76e>1 a779/a77b>1 a77d<8a04 ",
  "a77e/a786>1 a78b>1 a78d<a528 a790/a792>1 a796/a7a8>1 a7aa<a544 a7ab<a54f a7ac<a54b a7ad<a541 ",
  "a7ae<a544 a7b0<a512 a7b1<a52a a7b2<a515 a7b3>3a0 a7b4/a7c2>1 a7c4<30 a7c5<a543 a7c6<8a38 ",
  "a7c7/a7c9>1 a7cb<a567 a7cc>1 a7d0>1 a7d6/a7da>1 a7dc<a641 a7f5>1 ff21-ff3a>20 10400-10427>28 ",
  "104b0-104d3>28 10570-1057a>27 1057c-1058a>27 1058c-10592>27 10594-10595>27 10c80-10cb2>40 ",
  "10d50-10d65>20 118a0-118bf>20 16e40-16e5f>20 1e900-1e921>22"])

/-- Letters with a lower case that are new in the seventeenth edition. -/
private def addedTable : CodeTable Int := .ofText distance? "a7ce>1 a7d2/a7d4>1 16ea0-16eb8>1b"

/-- The letters that fold to something else than their lower case. -/
private def foldTable : CodeTable Int := .ofText distance? (String.join [
  "b5>307 17f<10c 345>74 3c2>1 3d0<1e 3d1<19 3d5<f 3d6<16 3f0<36 3f1<30 3f5<40 13a0-13f5>0 ",
  "13f8-13fd<8 1c80<184e 1c81<184d 1c82<1844 1c83-1c84<1842 1c85<1843 1c86<183c 1c87<1824 ",
  "1c88>89c3 1e9b<3a 1fbe<1c05 1fd3<1c43 1fe3<1c33 ab70-abbf<97d0 fb05>1"])

def shifted (c : Char) (distance : Int) : Char :=
  Char.ofNat ((c.toNat : Int) + distance).toNat

/-- The single character that is the lower case of a letter. -/
def lower? (e : Edition) (c : Char) : Option Char :=
  let earlier := lowerTable.find? c.toNat
  (match e with
  | .sixteenth => earlier
  | .seventeenth => earlier.or (addedTable.find? c.toNat)).map (shifted c)

/-- The characters that a table takes to a character. -/
def preimages (t : CodeTable Int) (c : Char) : List Char :=
  t.rows.toList.filterMap fun (run, distance) =>
    let code := (c.toNat : Int) - distance
    if 0 ≤ code ∧ run.contains code.toNat then some (Char.ofNat code.toNat) else none

/-- Whether a letter has a lower case in the sixteenth edition. -/
def hasLower (c : Char) : Bool :=
  lowerTable.contains c.toNat || c == '\u0130'

/-- Whether a letter is the lower case of another one in the sixteenth edition. -/
def isLower (c : Char) : Bool :=
  !(preimages lowerTable c).isEmpty

/-- The letters that folding changes or may change. -/
def folding : List Char :=
  ((lowerTable.rows ++ foldTable.rows).toList.flatMap fun (run, _) => run.solid).flatMap
    fun (low, high) => (List.range (high + 1 - low)).map fun i => Char.ofNat (low + i)

end Case

/-- The lower case of a letter that has one of a single character. -/
def lowerChar (c : Char) : Char :=
  if c.toNat < 0x80 then c.toLower else (Case.lower? .seventeenth c).getD c

/-- The character that stands for all that differ from a character only in case. -/
def foldChar (c : Char) : Char :=
  if c.toNat < 0x80 then c.toLower
  else
    match Case.foldTable.find? c.toNat with
    | some distance => Case.shifted c distance
    | none => (Case.lower? .sixteenth c).getD c

/-- All characters that differ from a character only in case, itself among them. -/
def caseVariants (c : Char) : List Char :=
  let base := foldChar c
  base :: ((Case.preimages Case.lowerTable base ++ Case.preimages Case.foldTable base).filter
    fun d => d != base && foldChar d == base)

/-- Whether the first character after those passed over has case. -/
private def nextCased : List Char → Bool
  | [] => false
  | c :: rest => if isPassedOver .seventeenth c then nextCased rest else isCased .seventeenth c

/-- Lower case, with the characters before the current one in reverse. -/
private def lowerFrom (before : List Char) : List Char → List Char
  | [] => []
  | c :: rest =>
    let here :=
      if c = '\u03a3' then
        if nextCased before && !nextCased rest then ['\u03c2'] else ['\u03c3']
      else if c = '\u0130' then ['i', '\u0307']
      else [lowerChar c]
    here ++ lowerFrom (c :: before) rest

def lower (s : String) : String :=
  String.ofList (lowerFrom [] s.toList)

end CodeGraph.Text
