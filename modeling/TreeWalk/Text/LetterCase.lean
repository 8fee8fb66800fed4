/-
Upper and lower case.

Most characters change case by a fixed distance, in runs of every or every
second code point; a run is four numbers, its first code point, its length, its
stride and the image of the first.  Some characters become several, and the
final sigma depends on its neighbours.
-/
import TreeWalk.Text.CharClass

namespace TreeWalk
namespace LetterCase

/-- Code points `first, first + stride, …`, `length` of them, mapped to
`image, image + stride, …`. -/
structure Run where
  first : Nat
  length : Nat
  stride : Nat
  image : Nat
  deriving Repr

namespace Run

def readAll : List Nat → List Run
  | first :: length :: stride :: image :: rest => ⟨first, length, stride, image⟩ :: readAll rest
  | _ => []

/-- The image of a code point of the run. -/
def map? (r : Run) (n : Nat) : Option Nat :=
  if r.first ≤ n ∧ n < r.first + r.length * r.stride ∧ (n - r.first) % r.stride = 0 then
    some (r.image + (n - r.first))
  else none

/-- The code point of the run with this image. -/
def comap? (r : Run) (n : Nat) : Option Nat :=
  if r.image ≤ n ∧ n < r.image + r.length * r.stride ∧ (n - r.image) % r.stride = 0 then
    some (r.first + (n - r.image))
  else none

/-- The code points of the run, each with its image. -/
def pairs (r : Run) : List (Nat × Nat) :=
  (List.range r.length).map fun k => (r.first + k * r.stride, r.image + k * r.stride)

end Run

def upperRuns : List Run := Run.readAll <| CharSet.numbers
  "97 26 1 65 181 1 1 924 224 23 1 192 248 7 1 216 255 1 1 376 257 24 2 256 305 1 1 73 307 3 2
    306 314 8 2 313 331 23 2 330 378 3 2 377 383 1 1 83 384 1 1 579 387 2 2 386 392 1 1 391 396 1
    1 395 402 1 1 401 405 1 1 502 409 1 1 408 410 1 1 573 411 1 1 42972 414 1 1 544 417 3 2 416
    424 1 1 423 429 1 1 428 432 1 1 431 436 2 2 435 441 1 1 440 445 1 1 444 447 1 1 503 453 1 1
    452 454 1 1 452 456 1 1 455 457 1 1 455 459 1 1 458 460 1 1 458 462 8 2 461 477 1 1 398 479 9
    2 478 498 1 1 497 499 1 1 497 501 1 1 500 505 20 2 504 547 9 2 546 572 1 1 571 575 2 1 11390
    578 1 1 577 583 5 2 582 592 1 1 11375 593 1 1 11373 594 1 1 11376 595 1 1 385 596 1 1 390 598
    2 1 393 601 1 1 399 603 1 1 400 604 1 1 42923 608 1 1 403 609 1 1 42924 611 1 1 404 612 1 1
    42955 613 1 1 42893 614 1 1 42922 616 1 1 407 617 1 1 406 618 1 1 42926 619 1 1 11362 620 1 1
    42925 623 1 1 412 625 1 1 11374 626 1 1 413 629 1 1 415 637 1 1 11364 640 1 1 422 642 1 1
    42949 643 1 1 425 647 1 1 42929 648 1 1 430 649 1 1 580 650 2 1 433 652 1 1 581 658 1 1 439
    669 1 1 42930 670 1 1 42928 837 1 1 921 881 2 2 880 887 1 1 886 891 3 1 1021 940 1 1 902 941
    3 1 904 945 17 1 913 962 1 1 931 963 9 1 931 972 1 1 908 973 2 1 910 976 1 1 914 977 1 1 920
    981 1 1 934 982 1 1 928 983 1 1 975 985 12 2 984 1008 1 1 922 1009 1 1 929 1010 1 1 1017 1011
    1 1 895 1013 1 1 917 1016 1 1 1015 1019 1 1 1018 1072 32 1 1040 1104 16 1 1024 1121 17 2 1120
    1163 27 2 1162 1218 7 2 1217 1231 1 1 1216 1233 48 2 1232 1377 38 1 1329 4304 43 1 7312 4349
    3 1 7357 5112 6 1 5104 7296 1 1 1042 7297 1 1 1044 7298 1 1 1054 7299 2 1 1057 7301 1 1 1058
    7302 1 1 1066 7303 1 1 1122 7304 1 1 42570 7306 1 1 7305 7545 1 1 42877 7549 1 1 11363 7566 1
    1 42950 7681 75 2 7680 7835 1 1 7776 7841 48 2 7840 7936 8 1 7944 7952 6 1 7960 7968 8 1 7976
    7984 8 1 7992 8000 6 1 8008 8017 4 2 8025 8032 8 1 8040 8048 2 1 8122 8050 4 1 8136 8054 2 1
    8154 8056 2 1 8184 8058 2 1 8170 8060 2 1 8186 8112 2 1 8120 8126 1 1 921 8144 2 1 8152 8160
    2 1 8168 8165 1 1 8172 8526 1 1 8498 8560 16 1 8544 8580 1 1 8579 9424 26 1 9398 11312 48 1
    11264 11361 1 1 11360 11365 1 1 570 11366 1 1 574 11368 3 2 11367 11379 1 1 11378 11382 1 1
    11381 11393 50 2 11392 11500 2 2 11499 11507 1 1 11506 11520 38 1 4256 11559 1 1 4295 11565 1
    1 4301 42561 23 2 42560 42625 14 2 42624 42787 7 2 42786 42803 31 2 42802 42874 2 2 42873
    42879 5 2 42878 42892 1 1 42891 42897 2 2 42896 42900 1 1 42948 42903 10 2 42902 42933 8 2
    42932 42952 2 2 42951 42957 1 1 42956 42961 1 1 42960 42967 3 2 42966 42998 1 1 42997 43859 1
    1 42931 43888 80 1 5024 65345 26 1 65313 66600 40 1 66560 66776 36 1 66736 66967 19 2 66928
    66968 5 2 66929 66980 7 2 66941 66996 3 2 66957 67004 1 1 66965 68800 51 1 68736 68976 22 1
    68944 71872 32 1 71840 93792 32 1 93760 125218 34 1 125184"

def lowerRuns : List Run := Run.readAll <| CharSet.numbers
  "65 26 1 97 192 23 1 224 216 7 1 248 256 24 2 257 306 3 2 307 313 8 2 314 330 23 2 331 376 1 1
    255 377 3 2 378 385 1 1 595 386 2 2 387 390 1 1 596 391 1 1 392 393 2 1 598 395 1 1 396 398 1
    1 477 399 1 1 601 400 1 1 603 401 1 1 402 403 1 1 608 404 1 1 611 406 1 1 617 407 1 1 616 408
    1 1 409 412 1 1 623 413 1 1 626 415 1 1 629 416 3 2 417 422 1 1 640 423 1 1 424 425 1 1 643
    428 1 1 429 430 1 1 648 431 1 1 432 433 2 1 650 435 2 2 436 439 1 1 658 440 1 1 441 444 1 1
    445 452 1 1 454 453 1 1 454 455 1 1 457 456 1 1 457 458 1 1 460 459 9 2 460 478 9 2 479 497 1
    1 499 498 2 2 499 502 1 1 405 503 1 1 447 504 20 2 505 544 1 1 414 546 9 2 547 570 1 1 11365
    571 1 1 572 573 1 1 410 574 1 1 11366 577 1 1 578 579 1 1 384 580 1 1 649 581 1 1 652 582 5 2
    583 880 2 2 881 886 1 1 887 895 1 1 1011 902 1 1 940 904 3 1 941 908 1 1 972 910 2 1 973 913
    17 1 945 931 9 1 963 975 1 1 983 984 12 2 985 1012 1 1 952 1015 1 1 1016 1017 1 1 1010 1018 1
    1 1019 1021 3 1 891 1024 16 1 1104 1040 32 1 1072 1120 17 2 1121 1162 27 2 1163 1216 1 1 1231
    1217 7 2 1218 1232 48 2 1233 1329 38 1 1377 4256 38 1 11520 4295 1 1 11559 4301 1 1 11565
    5024 80 1 43888 5104 6 1 5112 7305 1 1 7306 7312 43 1 4304 7357 3 1 4349 7680 75 2 7681 7838
    1 1 223 7840 48 2 7841 7944 8 1 7936 7960 6 1 7952 7976 8 1 7968 7992 8 1 7984 8008 6 1 8000
    8025 4 2 8017 8040 8 1 8032 8072 8 1 8064 8088 8 1 8080 8104 8 1 8096 8120 2 1 8112 8122 2 1
    8048 8124 1 1 8115 8136 4 1 8050 8140 1 1 8131 8152 2 1 8144 8154 2 1 8054 8168 2 1 8160 8170
    2 1 8058 8172 1 1 8165 8184 2 1 8056 8186 2 1 8060 8188 1 1 8179 8486 1 1 969 8490 1 1 107
    8491 1 1 229 8498 1 1 8526 8544 16 1 8560 8579 1 1 8580 9398 26 1 9424 11264 48 1 11312 11360
    1 1 11361 11362 1 1 619 11363 1 1 7549 11364 1 1 637 11367 3 2 11368 11373 1 1 593 11374 1 1
    625 11375 1 1 592 11376 1 1 594 11378 1 1 11379 11381 1 1 11382 11390 2 1 575 11392 50 2
    11393 11499 2 2 11500 11506 1 1 11507 42560 23 2 42561 42624 14 2 42625 42786 7 2 42787 42802
    31 2 42803 42873 2 2 42874 42877 1 1 7545 42878 5 2 42879 42891 1 1 42892 42893 1 1 613 42896
    2 2 42897 42902 10 2 42903 42922 1 1 614 42923 1 1 604 42924 1 1 609 42925 1 1 620 42926 1 1
    618 42928 1 1 670 42929 1 1 647 42930 1 1 669 42931 1 1 43859 42932 8 2 42933 42948 1 1 42900
    42949 1 1 642 42950 1 1 7566 42951 2 2 42952 42955 1 1 612 42956 1 1 42957 42960 1 1 42961
    42966 3 2 42967 42972 1 1 411 42997 1 1 42998 65313 26 1 65345 66560 40 1 66600 66736 36 1
    66776 66928 19 2 66967 66929 5 2 66968 66941 7 2 66980 66957 3 2 66996 66965 1 1 67004 68736
    51 1 68800 68944 22 1 68976 71840 32 1 71872 93760 32 1 93792 125184 34 1 125218"

/-- Characters compare equal without regard to case when these runs give them
the same image. -/
def foldRuns : List Run := Run.readAll <| CharSet.numbers
  "65 26 1 97 181 1 1 956 192 23 1 224 216 7 1 248 256 24 2 257 306 3 2 307 313 8 2 314 330 23 2
    331 376 1 1 255 377 3 2 378 383 1 1 115 385 1 1 595 386 2 2 387 390 1 1 596 391 1 1 392 393 2
    1 598 395 1 1 396 398 1 1 477 399 1 1 601 400 1 1 603 401 1 1 402 403 1 1 608 404 1 1 611 406
    1 1 617 407 1 1 616 408 1 1 409 412 1 1 623 413 1 1 626 415 1 1 629 416 3 2 417 422 1 1 640
    423 1 1 424 425 1 1 643 428 1 1 429 430 1 1 648 431 1 1 432 433 2 1 650 435 2 2 436 439 1 1
    658 440 1 1 441 444 1 1 445 452 1 1 454 453 1 1 454 455 1 1 457 456 1 1 457 458 1 1 460 459 9
    2 460 478 9 2 479 497 1 1 499 498 2 2 499 502 1 1 405 503 1 1 447 504 20 2 505 544 1 1 414
    546 9 2 547 570 1 1 11365 571 1 1 572 573 1 1 410 574 1 1 11366 577 1 1 578 579 1 1 384 580 1
    1 649 581 1 1 652 582 5 2 583 837 1 1 953 880 2 2 881 886 1 1 887 895 1 1 1011 902 1 1 940
    904 3 1 941 908 1 1 972 910 2 1 973 913 17 1 945 931 9 1 963 962 1 1 963 975 1 1 983 976 1 1
    946 977 1 1 952 981 1 1 966 982 1 1 960 984 12 2 985 1008 1 1 954 1009 1 1 961 1012 1 1 952
    1013 1 1 949 1015 1 1 1016 1017 1 1 1010 1018 1 1 1019 1021 3 1 891 1024 16 1 1104 1040 32 1
    1072 1120 17 2 1121 1162 27 2 1163 1216 1 1 1231 1217 7 2 1218 1232 48 2 1233 1329 38 1 1377
    4256 38 1 11520 4295 1 1 11559 4301 1 1 11565 5112 6 1 5104 7296 1 1 1074 7297 1 1 1076 7298
    1 1 1086 7299 2 1 1089 7301 1 1 1090 7302 1 1 1098 7303 1 1 1123 7304 1 1 42571 7305 1 1 7306
    7312 43 1 4304 7357 3 1 4349 7680 75 2 7681 7835 1 1 7777 7838 1 1 223 7840 48 2 7841 7944 8
    1 7936 7960 6 1 7952 7976 8 1 7968 7992 8 1 7984 8008 6 1 8000 8025 4 2 8017 8040 8 1 8032
    8072 8 1 8064 8088 8 1 8080 8104 8 1 8096 8120 2 1 8112 8122 2 1 8048 8124 1 1 8115 8126 1 1
    953 8136 4 1 8050 8140 1 1 8131 8147 1 1 912 8152 2 1 8144 8154 2 1 8054 8163 1 1 944 8168 2
    1 8160 8170 2 1 8058 8172 1 1 8165 8184 2 1 8056 8186 2 1 8060 8188 1 1 8179 8486 1 1 969
    8490 1 1 107 8491 1 1 229 8498 1 1 8526 8544 16 1 8560 8579 1 1 8580 9398 26 1 9424 11264 48
    1 11312 11360 1 1 11361 11362 1 1 619 11363 1 1 7549 11364 1 1 637 11367 3 2 11368 11373 1 1
    593 11374 1 1 625 11375 1 1 592 11376 1 1 594 11378 1 1 11379 11381 1 1 11382 11390 2 1 575
    11392 50 2 11393 11499 2 2 11500 11506 1 1 11507 42560 23 2 42561 42624 14 2 42625 42786 7 2
    42787 42802 31 2 42803 42873 2 2 42874 42877 1 1 7545 42878 5 2 42879 42891 1 1 42892 42893 1
    1 613 42896 2 2 42897 42902 10 2 42903 42922 1 1 614 42923 1 1 604 42924 1 1 609 42925 1 1
    620 42926 1 1 618 42928 1 1 670 42929 1 1 647 42930 1 1 669 42931 1 1 43859 42932 8 2 42933
    42948 1 1 42900 42949 1 1 642 42950 1 1 7566 42951 2 2 42952 42955 1 1 612 42956 1 1 42957
    42960 1 1 42961 42966 3 2 42967 42972 1 1 411 42997 1 1 42998 43888 80 1 5024 64261 1 1 64262
    65313 26 1 65345 66560 40 1 66600 66736 36 1 66776 66928 19 2 66967 66929 5 2 66968 66941 7 2
    66980 66957 3 2 66996 66965 1 1 67004 68736 51 1 68800 68944 22 1 68976 71840 32 1 71872
    93760 32 1 93792 125184 34 1 125218"

/-- The characters whose upper case is several characters, each followed by how
many they are and what they are. -/
def upperSequences : List Nat := CharSet.numbers
  "223 2 83 83 329 2 700 78 496 2 74 780 912 3 921 776 769 944 3 933 776 769 1415 2 1333 1362
    7830 2 72 817 7831 2 84 776 7832 2 87 778 7833 2 89 778 7834 2 65 702 8016 2 933 787 8018 3
    933 787 768 8020 3 933 787 769 8022 3 933 787 834 8064 2 7944 921 8065 2 7945 921 8066 2
    7946 921 8067 2 7947 921 8068 2 7948 921 8069 2 7949 921 8070 2 7950 921 8071 2 7951 921
    8072 2 7944 921 8073 2 7945 921 8074 2 7946 921 8075 2 7947 921 8076 2 7948 921 8077 2 7949
    921 8078 2 7950 921 8079 2 7951 921 8080 2 7976 921 8081 2 7977 921 8082 2 7978 921 8083 2
    7979 921 8084 2 7980 921 8085 2 7981 921 8086 2 7982 921 8087 2 7983 921 8088 2 7976 921
    8089 2 7977 921 8090 2 7978 921 8091 2 7979 921 8092 2 7980 921 8093 2 7981 921 8094 2 7982
    921 8095 2 7983 921 8096 2 8040 921 8097 2 8041 921 8098 2 8042 921 8099 2 8043 921 8100 2
    8044 921 8101 2 8045 921 8102 2 8046 921 8103 2 8047 921 8104 2 8040 921 8105 2 8041 921
    8106 2 8042 921 8107 2 8043 921 8108 2 8044 921 8109 2 8045 921 8110 2 8046 921 8111 2 8047
    921 8114 2 8122 921 8115 2 913 921 8116 2 902 921 8118 2 913 834 8119 3 913 834 921 8124 2
    913 921 8130 2 8138 921 8131 2 919 921 8132 2 905 921 8134 2 919 834 8135 3 919 834 921
    8140 2 919 921 8146 3 921 776 768 8147 3 921 776 769 8150 2 921 834 8151 3 921 776 834 8162
    3 933 776 768 8163 3 933 776 769 8164 2 929 787 8166 2 933 834 8167 3 933 776 834 8178 2
    8186 921 8179 2 937 921 8180 2 911 921 8182 2 937 834 8183 3 937 834 921 8188 2 937 921
    64256 2 70 70 64257 2 70 73 64258 2 70 76 64259 3 70 70 73 64260 3 70 70 76 64261 2 83 84
    64262 2 83 84 64275 2 1348 1350 64276 2 1348 1333 64277 2 1348 1339 64278 2 1358 1350 64279
    2 1348 1341"

/-- The entry of `n` in a list of entries `key, length, members…`. -/
def lookUp (n : Nat) : Nat → List Nat → Option (List Nat)
  | fuel + 1, key :: length :: rest =>
    if key = n then some (rest.take length) else lookUp n fuel (rest.drop length)
  | _, _ => none

def mapWith (runs : List Run) (n : Nat) : Nat := (runs.findSome? (·.map? n)).getD n

/-- The code points that a table changes. -/
def domain (runs : List Run) : CharSet := .ofPoints ((runs.flatMap Run.pairs).map (·.1))

/-- The characters of the list of entries `key, length, members…`. -/
def sequenceKeys : Nat → List Nat → List Nat
  | fuel + 1, key :: length :: rest => key :: sequenceKeys fuel (rest.drop length)
  | _, _ => []

/-- The upper case of a character, which may be several characters. -/
def upperChar (c : Char) : List Char :=
  match lookUp c.toNat upperSequences.length upperSequences with
  | some image => image.map Char.ofNat
  | none => [Char.ofNat (mapWith upperRuns c.toNat)]

/-- The lower case of a character on its own. -/
def lowerChar (c : Char) : List Char :=
  if c.toNat = 0x130 then ['i', Char.ofNat 0x307] else [Char.ofNat (mapWith lowerRuns c.toNat)]

/-- The representative of the characters equal to `c` without regard to case. -/
def foldChar (c : Char) : Char := Char.ofNat (mapWith foldRuns c.toNat)

/-- All characters equal to `c` without regard to case. -/
def foldClass (c : Char) : List Char :=
  let root := foldChar c
  root :: (foldRuns.filterMap (·.comap? root.toNat)).map Char.ofNat

/-- The code points that are not the representatives of their kind, each with its
representative. -/
def foldPairs : List (Nat × Nat) := foldRuns.flatMap Run.pairs

/-- A set with all characters equal to a member without regard to case: first
the representatives of the members are added, then all that they represent. -/
def foldSet (s : CharSet) : CharSet :=
  let roots := foldPairs.filterMap fun (c, root) => if s.hasPoint c then some root else none
  let s := s ∪ .ofPoints roots
  let others := foldPairs.filterMap fun (c, root) => if s.hasPoint root then some c else none
  s ∪ .ofPoints others

/-- Whether a character equals others without regard to case. -/
def hasCase (c : Char) : Bool := (foldClass c).length != 1

/-- Characters that lower case changes; the dotted capital I becomes two. -/
def changesLowercased : CharSet := domain lowerRuns ∪ .range 0x130 0x130

def changesUppercased : CharSet :=
  domain upperRuns ∪ .ofPoints (sequenceKeys upperSequences.length upperSequences)

/-- Characters that title case changes: as upper case, but for the letters that
are in title case already and for Georgian, which has none; the capital
digraphs change too. -/
def changesTitlecased : CharSet :=
  (changesUppercased \
      (Category.set [.lt] ∪ .ofRanges [(0x10D0, 0x10FA), (0x10FD, 0x10FF)])) ∪
    .ofPoints [0x1C4, 0x1C7, 0x1CA, 0x1F1]

/-- Characters that become several when case is disregarded. -/
def foldSequences : CharSet := .ofGaps
  "223 1 80 1 24 1 1085 1 6418 1 229 8 8 8 8 8 10 3 2 1 10 3 2 1 42 3 2 1 56072 5 1 1 12 5"

/-- Characters that change when case is disregarded, other than by losing a
distinction that normalization does not make either. -/
def changesCasefolded : CharSet :=
  (domain foldRuns \ .ofPoints [0x1FBE, 0x1FD3, 0x1FE3]) ∪ foldSequences

def changesCasemapped : CharSet := changesLowercased ∪ changesUppercased ∪ changesTitlecased

def upper (s : String) : String := String.ofList (s.toList.flatMap upperChar)

/-- Whether a cased letter comes first in `cs`, looking through ignorable
characters. -/
def startsCased (cs : List Char) : Bool :=
  match cs.dropWhile CharClass.isCaseIgnorable with
  | c :: _ => CharClass.isCased c
  | [] => false

/-- The lower case of a text of which `before`, last character first, has been
read.  A sigma that ends a word has a form of its own. -/
def lowerFrom (before : List Char) : List Char → List Char
  | [] => []
  | c :: rest =>
    let image :=
      if c.toNat = 0x3A3 then
        [Char.ofNat (if startsCased before && !startsCased rest then 0x3C2 else 0x3C3)]
      else lowerChar c
    image ++ lowerFrom (c :: before) rest

def lower (s : String) : String := String.ofList (lowerFrom [] s.toList)

end LetterCase
end TreeWalk
