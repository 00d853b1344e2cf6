/-!
# Tables of Unicode

The classes of characters that names, documentation and quoted texts are read with, as of Unicode 17. A
table holds the lengths of the runs of code points that lie outside and inside its class, in turn from
code point 0 on; what follows the last run is one more run.
-/

namespace ClientGen.Text

/-- Does the code point `n` places on from the start of a run lie in the class? -/
def inRuns : (inside : Bool) → (runs : List Nat) → (n : Nat) → Bool
  | inside, [], _ => inside
  | inside, run :: runs, n => if n < run then inside else inRuns (!inside) runs (n - run)

/-- Reads the lengths of runs. A letter is a length from 0 to 51, capital letters first, and a number `n` in front of it
adds `52 * n`. A star after a number is that many runs of one code point, as where capital and small letters take
turns. -/
def readRuns : (n : Nat) → List Char → List Nat
  | _, [] => []
  | n, c :: cs =>
    if c.isDigit then readRuns (10 * n + (c.toNat - '0'.toNat)) cs
    else if c = '*' then List.replicate n 1 ++ readRuns 0 cs
    else (52 * n + if c.isUpper then c.toNat - 'A'.toNat else 26 + (c.toNat - 'a'.toNat)) :: readRuns 0 cs

def runLengths (lines : List String) : List Nat := readRuns 0 (lines.flatMap String.toList)

/-- Outside ASCII, the characters with the property `Alphabetic`. -/
def alphabeticRuns : List Nat := runLengths [
  "3OBKBEBFXBfB8qEMOFHBBB1iBdSBCCEBBGBBDBBBUB1fB2jI3KBmCBGpnOBBBCBCBBIbEEdLF1EBHO1yBIEIEDKDCBQwN1xYhJCEBFYCTTZHLFYB",
  "HHBIqKMDHG1YBQBDEPNTBICCCWBHBBDEDICCCCBBIBECBFMCKBEDBGECCWBHBCBCBCEFECCCEBHEBBRGLDBJBDBWBHBCBFDJBDBCDBPEVEEDBICC",
  "CWBHBCBFDICCCCJCECBFNBQCBGDDBEDCBBBCDCDDDMEFDDBDDBGBoNBDBXBQDIBDBDICBDBCCEcEBIBDBXBKBFDIBDBDICFDBENDMNBDBpCIBDBD",
  "BBFEHFWGBDBSDYBJBBCHIGBBBISCN1GFHGBzCBBBFBYBBBTBDCFBBGBOEgB1LIBkETEQBk1P1DBBCFQ1MKECmBBFBCrB6VBECHBBBECpBEChBECH",
  "BBBECPB1FBEC1PlQQ1iCGD11wCRBaF1XDLHULVMUMNBDBCM1ACTOBEB1P1lHrF1SKfBMEJXeCFLsEa1CcE1LCUyBXCLDx1ABPBIzqCEKsBLO1DWD",
  "KkCLFrCDpEBGBCDBF3kTiL5SCGCmCGCI7*fC1BBHBBDDBHDECGENFDBH2MBNBQN1xBEBCKBBDFG6*EBLCEFFEBRp15h1A34u4VGEDCMmBBFBC1EH",
  "BQXJHBHBHBHBHBHBHBHBgvB9BDZJHFCFE1iGDB1mBEFrB1qRgwQ9s126o1M426F1PuC5JDQKCUvFID2JnJC1zC1eUVBhY1AM1QBBsGDBBDKhFjNd",
  "DzBMPBQQKFB1DJOSXD1R4*YDCQCELGCGCGJHBHBrBOG2TV214sMXEx162c7CC2CmHMFFMBNBFBBBCBCB2Eh6zS1MC1CoM2MFB2fkaGaL1lDGCGCG",
  "CDjMBaBTBCBPCOi2T1R1B5HdDxvgNeFrFeCkEIBFq3CSkEkEoI1AMLBPBHBCBLBPBHBCD1AM5zJWKIYGBqBJ1RGCBBsBCDBCXKXJf1NTBCKWKaGa",
  "m1EGC1MEBCFIBDBdqdDdjIBcb1CKWKTNS2G1V1DzNzNoicDBFX4qqBCDCQGyDDdKBIWqSuVbXJ1SrFK1FJBNZXzREIjDBJ1MBEJCKBBBjSBiCBGE",
  "1KHBBBEBPBKH1FXEBICCCWBHBCBFDICCCCDBGBFHcKBBCBBmBKBBCBBEBCDBBBs1OBDBEUDe1OCCBB3c1CCHZGi1LBBDB1H1CCB1TbCOVH3d1F1z",
  "1MfICBCIBCBeBCCCCE1pICuCGBBBCbzCKR1UFBS1V1zI1khfJBtBHBBxeCWBO1VHBCBsDBBCBDBBCCYGBCBlBCBEBBXs5AXJRBpDD2HB1b17m1y",
  "2HR3o50k1tP20gRGZ76rF11L131dv33d10xHfR1bReSwQEfVFT8Qt4D1MgZCZs1XE1FHR1MCBBMHJ141ypg1t2L167REBHBCB5fPBdDCBOEI7g",
  "44U2DFNDJHKEB115F1hB1TBCCBCCCEBMBBBHB1NBECIBHBcBEBFBBDHB6cCZBZBfBZBfBZBfBZBfBZBI35YfGG4FHBRCHBCBFF1KhB2ItKHQB6Je",
  "Ss9Qc4UeCB3zfBWIC4QHBEBCBPB3p1H1QDBDB23IEBbBCBBCBBKBE4*GBE6*DBCBBC10*CBBCEBHBEBEBBBKBRFDBFBR12EaGaGa71K821cg84OC",
  "111CC143lP11y47W10W28y94zF163O"]

/-- The characters with the property `Grapheme_Extend`: marks that attach to the character before them. -/
def extenderRuns : List Nat := runLengths [
  "14o2I5PH5DtBBBCBCBB1ULwVQB1xHCGCCBEjBeb1nL1GJJBYEBJBDBFrD1HJqYBg1DBBBEIEBDHKCdB1GBBBCEIBJBKCaBCC1FBECECCDDBeCDBL",
  "C1FBEFBCEBUCWGBB1GBBCBEIBHDKCeB1HBBBMBJBoBDB1DBBDFDBEHCLCdB1GBCCBBDDBEHCLCcC1FCBBCEIBJBKCdB1UBEBCDBBIB1dBCHMI1uB",
  "CJLH1VCb5*1DOBFBCFLBkJB1yEBGBCCCZCEDQENBCCGBPB13bD18KEcDdCeC1MCBHIBCLJBtDBB2NCiB2ODECJBGD4LCCB1GBBH4*CIGKCBwuCMU",
  "EwKEDmJMCgECG1EBBCDBBF1EICC2wDBNBHEBGBDC3q1M13sh59CD2lB1sg10iG2BC580EEBKgC1cC5MBDBEBZCFB2vCaSNBmIZLBBsDwBCECCCBk",
  "B1PGCCCCMBIBvBzBBDCCFCBBqCIB4eBCBEB389sB14JQQQ18lB4SB2tF32GDBCFEoDEB3JC11BE1NF6FC1ZG1SLxE2TB1CPpBCCKDxECCHB1JDkF",
  "BI1KBMC1AJBBIECB1rDCEGBCB3BBDIVC1FC4*MBJBOHDF1PBCGBBCBBDEDBBOC1hICDBBXB1dBCGBBCBBCBC4bBCEGCBCbC1hICBBC2CBBBCI1xB",
  "BBCEBF4zJBC4lBKEEB2oECCEBgKoGCEIBJGCDuNBC3qBBDBB3tHBGBB1eWCHBCBC2SGDBBCBHBB1UCDBBB6jCLC1AFFDXB102tBGP220YMDD48AF",
  "1HH20IB1LE1dBLC377XC90ZuCX10WFDGIICHeE2sD38D1DEyIBOBWFBP26IHBRCHBCBF1wB3EH7LB1JE9oE4uC4jBCBHCFB9GH2FH15240V4g"]

/-- The characters with the property `Default_Ignorable_Code_Point`. -/
def ignorableRuns : List Nat := runLengths [
  "3RB12xB13oB55WC31HC1hF39PFaFxQ83YB1007PQ4fB3EB1bJ928nE102XI15352l78o"]

/-- Outside ASCII, the characters with the property `Lowercase`. -/
def lowercaseRuns : List Nat := runLengths [
  "3OBKBEBkYBI55*C15*C46*C4*DCBBBCBDCEBCBDDCBC5*CBBCBBCBDBBBCCCDGBCBC16*C17*CCBBBD58*HCBCCBBE8*1RCjHCeF1sBrBBBDBCES",
  "BbjBCDD23*FBBCBCCzw34*J53*C12*C96*wp55brBE14gG41uJBB2N3k1N148*J97*JIGKIIIIGKIIIIOCIIIIIIFBCGBDDBCIECCIIKDBC2RBNB",
  "QN2FBDCDBbBEBEBCCIEEBhQEB16La35qwBBDC6*EBBCBID98*CHBBBEBMmBBFB596D45*T26*D2d12*D61*K4*C9*EBBBCBBD20*FBF15*EBBBC",
  "15*VEBBBD15prBOG1c390IHMF20Za23ho2gk2zLBPBHBC8jBCDBqBJ24lz2VW55Og420wg1HZ498eaaHBSaaaEBBBHBLaaaaaaaaaaaaaaaaaccZ",
  "BGaZBGaZBGaZBGaZBGBB35YKBUGG5B1K42si"]

/-- Outside ASCII, the characters of the general categories `Nd`, `Nl` and `No`. -/
def numericRuns : List Nat := runLengths [
  "3WCFBCD27lK2eK3qK7wK2OKEG2EK2OK2OKCG2GN2LKIH1zK2AHHT2FK1sK2OK1SU5IK1SK13rU16xD4fKGKWK5oK2YL3JKGK3aK1iK2eKGK20GBD",
  "GGK3qzCF13y1I1aW12Ge26hB14xBZJOD6fE2iKeIBPgKnP568AK3gK6IG2yKmK3qKWK1iK7qK409CK9ZtM1FRC6dbkEdBIB2eF3uK18GIZHnJ1XF",
  "WG3ECCQCu1MJ1ACeD1XF2AIYIpH6SGwKGK5Sf3CKqE2IH2ee2YK1IK2oKHU4rK6eK2OK7KK1yKGU1YM8ET1pK12mK1id4TK1SK1CK6uK1yV20b2H",
  "299FK45CK1iK2eKBH10GK5CX6lD457lK28WUMU2EZ21Ry45cK8GK9iK4nK13oJ2YK15L1HBDBE1YtBP18aN53fK"]

/-- Outside ASCII, the characters of the categories `Cc`, `Cf`, `Co`, `Cn`, `Zl`, `Zp` and `Zs`. -/
def unprintableRuns : List Nat := runLengths [
  "2YhMB13mCGEHBBBUB7hBmCyCDB1DIbEGRWB3kBwC1HC1xO1HCxCPBcCBBLFgH1XB3FBICCCWBHBBDECJCCCEIBECBFCZCDBGECCWBHBCBCBCCBBF",
  "ECCDDBHEBBHRKDBJBDBWBHBCBFCKBDBDCBPECMHHBDBICCCWBHBCBFCJCCCDHDECBFCSKCBGDDBEDCBBBCDCDDDMEFDDBECBGBOVFNBDBXBQCJBD",
  "BEHCBDBCCECKHWBDBXBKBFCJBDBEHCFDBECKBDMNBDBzBDBGEQCaBDBSDYBJBBCHDBEGBBBIGKCDM1GEdlCBBBFBYBBBXCFBBBHBKCEg1UBkEnBk",
  "BPBNl3qBBFBC7NBECHBBBECpBEChBECHBBBECPB1FBEC1PCgDaG1iCGC12QBcD1lHWJYJUMNBDBCM1qCKGKGOBLG1lHrF1SKfBMEMEBDqCFLsEaG",
  "LD1KC1NBdCLGKGOCuCMU1ZB3KI1IDPD1KFrCLIrF10OCGCmCGCI7*fC1BBPBOCGBTCDBJRYIvRCCbBNDiOhP2kE12qWLV34sC7SFtBBFBC1EHCOY",
  "JHBHBHBHBHBHBHBHB2WiaB1lM4GaQB1LB1iC1zFrB1qB1iJwB563RD1DJ6kU3cI4NU1IDKG1EI1SIMG2MLeD1aBLEhB1DJOCKC1zYcKGCGCGJHBH",
  "B1IE2WCKG214sMXEx162c7CC2CmHMFFaBFBBBCBCB12agqGzBTBEEFB2fE3iDGCGCGCDDHBHNCCMBaBTBCBPCOi2TFDEtD1kBNDBvu2adDxPcEkJ",
  "eFrFeBlEOq3CCKGkEkEoI1ALMBPBHBCBLBPBHBCD1AM5zJWKIYGBqBJ1RGCBBsBCDBCXB1UIJwTBCFhDbFbm1EEUCyBCFIBDBdCDEKHJH1MgnEMJ",
  "1CDdCbFaHEMH1c1V1DzNzHuIKGmDdIC4AfBqBDCCQGIJhuIqWamcUXJ1aEkJ1KBFNZHKG1BBSInJ1sBULSBv1KHBBBEBPBLG1HFKGEBICCCWBHBC",
  "BFBKCCCDCBGBFHCHDFLKBBCBBmBKBBCBBEBKBCICd1oBFe1UIK3K1CCmi1RLKGNT1GGKGUcbCPEX3d1I1w1fMICBCIBCBeBCCMJK1SICuCLb1UI",
  "1fN1VHK1iI1kiOKGJBtBOKdDgCWBO1VHBCBsDBBCBJIKGGBCBlBCBGHKGsEK4mZHRBpDd1hBPyN17n1y2HBFL3o50k1vN20gQWK76rF11L131d1G",
  "33S10xHfBKE1dBKGeCGK1SKKBHBVFT8Q1G3q1nFZCZs1XE1FHR1MFLHJ141ypg1t2L167REBHBCB5fPBdDCBOEI7g44U2DFNDJHKCE75k4tD8UGX",
  "PRPuCXJ2M1I4mKnC1WI2IV1S2SUMUM1jJZ2f1hB1TBCCBCCCEBMBBBHB1NBECIBHBcBEBFBBDHB6cC5gC13aPFBP21MfGG4FHBRCHBCBFF1KhB2I",
  "tDOCKEC6IfR1GFB8wq4GrEB3kfBWIC4QHBEBCBPB3pCQp1YEKEC15F1Q1Y1J3mEBbBCBBCBBKBE4*GBE6*DBCBBC10*CBBCEBHBEBEBBBKBRFDBF",
  "BR1AC5KsE1wMPCPBPBlK3S1EdNsEJHCOG2y18xDRDND4KGMEBPME1EIKGoIeCMECOJn6gIOCNDLD1FBBEQCMEKH2rB1z19p821cg84OC111CC",
  "143lP11y47W10W28y94zF163O13609y4g"]

/-- Outside ASCII, the characters with the property `Uppercase`. -/
def uppercaseRuns : List Nat := runLengths [
  "3kXBHh55*C15*C46*C4*DCBBBCBDCEBCBDDCBC5*CBBCBBCBDBBBCDBHBCBCBC15*C17*CBCBBD58*HCBCCBBE8*5dBBBDBIBGBBDBBBCBRBJjBC",
  "DD23*FBCBBCCzw33*J54*C12*C95*Cm55dmBBFB13u1i42LBGrCD6I149*J97*JIIGKIIIIGL7*II1UEMEMEMFLE5CBEBDDCDCBDFG6*ECEKCFBa",
  "QTB15ma35UwwBBDC6*EBBCBID98*IBBBEB597J45*T27*2f13*D61*K4*C8*EBBBCBBBD20*FBF15*EBBBC16*YB429Ha23Zo2gk3ALBPBHBC34C",
  "z3BW55Og420wg1MZ498faaaaaaBBCCBCCCEBIaaaCBECIBHbCBEBFBBDHbaaaaaaaaaaaeZhZhZhZhZhB84li39iaGaGa"]

end ClientGen.Text
