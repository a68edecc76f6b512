import SourceEdit.Unicode.Intervals

/-!
# General categories

Every assigned character has exactly one of the categories below; surrogates have none here,
since no text holds one. The coarser classes (letters, marks, numbers, ...) are unions of these,
and the unassigned code points are what remains.
-/

namespace SourceEdit.Unicode

/-- The elementary categories: the loose forms of the names of each, and its members. -/
def categoryTable : List (List String × List String) := [
  (["lu", "uppercaseletter"],
    ["cBZdFWBGbBABABABABABABABABABABABABABABABABABABABABABABABABABABABACABABABABABABABACABABAB",
     "ABABABABABABABABABABABABABABABABABABABABBBABADBBABBBCCDBBBCDBBBBABABBBACABBBCBABBDAHACAC",
     "ACABABABABABABABACABABABABABABABABACACABCBABABABABABABABABABABABABABABABABABABABABABABAB",
     "ABABABABABAHBBBCABDBABABABAjBABADAIAGABCBABBBQBIbDACCDABABABABABABABABABABABAFACABBCbSbQ",
     "ABABABABABABABABABABABABABABABABAJABABABABABABABABABABABABABABABABABABABABABABABABABABAB",
     "BBABABABABABACABABABABABABABABABABABABABABABABABABABABABABABABABABABABABABABABABABABABAB",
     "ABABABABABABABABABABACbFc6JbFBAFAwScVceTAGbKCCkAABABABABABABABABABABABABABABABABABABABAB",
     "ABABABABABABABABABABABABABABABABABABABABABABABABABABABABABABABABABABABABABABABABABABABAB",
     "ABABABABABABABABABABAJABABABABABABABABABABABABABABABABABABABABABABABABABABABABABABABABAB",
     "ABABABABABABABABABABABABABABABAJHIFKHIHIFLABABABAIHcIDMDMDMELDiGAEADCCCCADEGABABABDCDKBF",
     "Ab3Act2bPbQABCCABABABDBACAICBABABABABABABABABABABABABABABABABABABABABABABABABABABABABABA",
     "BABABABABABABABABABABABABABABABABABABAIABAEA+kNABABABABABABABABABABABABABABABABABABABABA",
     "BABATABABABABABABABABABABABABABAeHABABABABABABADABABABABABABABABABABABABABABABABABABABAB",
     "ABABABABABABABABABABAKABABBBABABABAEABACABADABABABABABABABABABABEBEBABABABABABABABDBABBD",
     "AFABABABAYAvzLZbgFbHeIbDe2KBOBGBBbxKbSe3Vcz05vmA5znAZ0Z0Z0ABBCACBCDBH0Z0BBDCHBG1BBDBEBAD",
     "G1Z0Z0Z0Z0Z0Z4YbBYbBYbBYbBYbBAejVbB"]),
  (["ll", "lowercaseletter"],
    ["dBZb0AbJXBHBABABABABABABABABABABABABABABABABABABABABABABABABABABABBBABABABABABABABBBABAB",
     "ABABABABABABABABABABABABABABABABABABABABACABABCCABACADBEACADCCACABABACABBBACADABACBCCGAC",
     "ACABABABABABABABABBBABABABABABABABABBCABADABABABABABABABABABABABABABABABABABABABABABABAB",
     "ABABABABABABGCACBBAEABABABABcECZgBABADADCSA1bCBBDCBABABABABABABABABABABABEBACACBbTbPBABA",
     "BABABABABABABABABABABABABABABAJABABABABABABABABABABABABABABABABABABABABABABABABABABACABA",
     "BABABABABBBABABABABABABABABABABABABABABABABABABABABABABABABABABABABABABABABABABABABABABA",
     "BABABABABABABABABAbQbIc6HbKCCxYFceCIBAdVbLb5MBbBdGABABABABABABABABABABABABABABABABABABAB",
     "ABABABABABABABABABABABABABABABABABABABABABABABABABABABABABABABABABABABABABABABABABABABAB",
     "ABABABABABABABABABABABIBABABABABABABABABABABABABABABABABABABABABABABABABABABABABABABABAB",
     "ABABABABABABABABABABABABABABABABIIFKHIHIFKHIHINCHIHIHIEBBGADCBBIDCBIHKCBBiSADBDA1AEAEACB",
     "IDEAbVAcvLbPBADBBABABAEABBBFFABABABABABABABABABABABABABABABABABABABABABABABABABABABABABA",
     "BABABABABABABABABABABABABABABABABABABABBHABAEAMbFBAFA+iTABABABABABABABABABABABABABABABAB",
     "ABABABABABABATABABABABABABABABABABABABABAeHABABABABABABCBABABABABABABABABABABABABABABABA",
     "BABABABABABABABABABABABABABABABHBABACABABABABAEABACABCBABABABABABABABABABAFAFABABABABABA",
     "BABAEABACADABABABABABA0ADAzVbKFIHcPt6AGMEbbJZbgNbHeIbDe1KBOBGBBbyDbSd3Vcz05vmA5zm0Z0GBR0",
     "Z0DBABGBK0Z0Z0Z0Z0Z0Z0Z0Z012YBF0YBF0YBF0YBF0YBFBAbzUJBTGFcpXbB"]),
  (["lt", "titlecaseletter"],
    ["oFACACAbGAhmVHIHIHMAPAbPA"]),
  (["lm", "modifierletter"],
    ["vQRELOEHABAeFAFAo4AhGAfEBiNBEA5AJADAfAAfHAbgUAd5ArVAbw0AdLAtDAoQFfOb4NAbCbEvRANAQMc+5BhR",
     "Af5AoVAbLEFAdBBc3C7yWAbhCFiOAdSA2BdZIcQAXAdJCDBoVAWAeJAdMAVBdHDJAvaGAbNBb/AFBbJBIbmTAbAA",
     "xoQDp2CbIBrGMcABBAqaMDBGBBmbRb3gJG9NAbc5A"]),
  (["lo", "otherletter"],
    ["fKAPAiAAEDgQBz00EDbN5BJbDBBdCBAYBKCCAQAB33cYLAYbAVVbKYHKFXBFRbIb1bVDASAHJQOEHCBCVBGBADDD",
     "AQANBBCOBKAIFEBCVBGBBBBBB5DBATCQIBCBVBGBBBEDASAPBXALHCBCVBGBBBEDA4BBCPARABFDCBDDBBABBDBD",
     "CDLWAbUHBCBWBPDA0CCACB4AEHBCBWBJBEDA5BBBPBRIBCBbICAQAFCICYFFRDXBIBACGb0bPBBMFb1BBABEBXBA",
     "BJBBJACEXDbAAb5HBbD1EdTbKUAQFEDDADBHCEMMAdRkIBDCGBABDCbIBDCbABDCGBABDCOBbYBDCcCbFPdRtLCQ",
     "BZFcKGHHRNSOROMBCPbTbIAcDbCBbUHECbBBAFcFK4bR3CELbLEZbWWJbUfQbORHbW3NBKbL0bDbJCK3dRDBFBBD",
     "Abb0Dc/XbXYWJGBGBGBGBGBGBGBGrHAbVAEcVIABcZEAFbKBc3R5bQPqAgn5cAuqUBbdWcDbHIiLEPKBcCAbRcFf",
     "JAdHADGBCBDBW3bTObRb4FDABBL1KWZ2HbObNECIKEBbIXCBHUPBFDADbRBADBCECABAYBDKHAOFCFCFJGBGeRbC",
     "3k9DMWEbQiiElNCdJcDABJBMBEBABBBBBdLbBlKSb5CbVbILdUEBeGdJJBbMC4DFCFCFCCbDLBZBSBBBOCNbCd0m",
     "F2DbQbP5NTBHGbFK3CbDEHeAcNdCbHIbTc2bTMjWJVKHeYFCABbLBBDACWKWJ4cBSBBKVKZcGbXGBcAAPDBCB2bK",
     "2D2bDHB11bVKVKSNRdOcIfXbDbGDBAjQbJGBQCb12KAIVbKRbOU1WMbUbZBCANbMbAY0bD3ACAIbCDAMbPODVABA",
     "bDRBYTBb5GBABDBOBJHbObGHCBCVBGBBBEDASAME4JBACABbFBAZABAbMbUSDUC4bPUBBAfYbObJDbEbPUAb1bKN",
     "AcH0bFGfZbLgTHCACHBBBXPABAc4HCbGQABA2AKbHHAVALbNTAScIgHbA5IBbERAbR3dQGBBBbFVAZFBBB5OAkHS",
     "PABMBbBd2AcP8ZhGgDcsMdAPbbPRFZd80FsGgvZ3bxCrYH4RcOR3SbPbTUFSnTbHmVcKFAfPf/XIbgVbJJixXjCP",
     "A3CCAODImLciEdKFMDIHJitQApVbMbBAkB3SbLpE0hF3CApPGBDBBBOBgEbj1DB0BBBACABJBDBABAGAEABABABC",
     "BBBACABABABABABBBACDBGBDBDBABJBQFCBEBQekEbjw5bAebZGg3CfuBOhjQPtNcnCq3bpCe6KFec5"]),
  (["mn", "nonspacingmark"],
    ["yAdPiTEiJbMBABBBBBAcIKbQUQAdFGCFCBBDbDA40c1Kb0IJAYDBIBCBEbLCb1IbKXB5bXABAEHEADGKB3Ab0AED",
     "IAUB0ACBbZAEBEBCCDA4BDALBbZAEEBBEAUBWFBAb0ACABDIAHBLB4Ab3AMAbSADAbXABCFCBDHBLB3Ab0ACAGAF",
     "BUB2BbZBEDIAUB3AcIAHCBAc0ACGMHdCACILGcJB1ABABAbXNBEBBFKBbDJAdGDBFBBCBZBECQDNACBGAPAv5C9S",
     "C3B4B4BcABBGIACKJAbNCBAdVBbCAdWCEBJAGCg1BCAb0ABGBABACHGJCAbQNBPbRDbQABEBAFAbIIMBbADCBBCb",
     "YABBDABCb0HCBeYCBMBGEAGADBgGb5wQMEADLc/4CeNAdA5rKDdLB9oUAEJbABcQBiQADAEAZBFAeXB0RNAbGHZK",
     "bOCbQACDCBbHAcDFCBCBMAIAbPAbTABCCBFBBAbKBIAhOACAEAtzQAxBPQP+NAhCAeVEbuGCBBFDbICEAfFBr3Dc",
     "BEj3BcPDcGKbRDd1AbWObJACBKCbRDCBHAb3CbEEBHb4AMBbUIKDCAc5CCABBGACAe3ADHVBbZBDAbFGDEcGFNAB",
     "ABAOBcVHCCBAXAcUFBAEBBBhODGBBB1BcVHCABBdKABACFBAdFABACDBEiDIBBiABBAEAeQDCBEAbAJbIFCDIAJF",
     "CCbOMBBmWGBFBAcSVCGBBBBd0FDABBBGBAcIBDABAk1BLBbUEFABAXAfhFAGOlgILDCcoAEb1GbaYAb5DcRAtfYB",
     "etBbNCWrACRHCG4DeUCb91bWEbRIAOAWEBObkQGBQCGBBBEdEAfAGlXAb3Dp2Dh4BxAGdNGyf9VhP"]),
  (["mc", "spacingmark"],
    ["ciDAbXACCIDBBbSBb0CGBCBKAbLAb0CcCAb0CIABBbVBb0ABAGBCBKAdGBBBDCBCKAbJCb3Db3Bb0ABECBBBJB2A",
     "OBb0CFCBCKAbKBcLCGHSBkKBb5AfLBEAGACBZBKCCGVBCFCAKCbtYA4AeBAHHBBk0DCCEBBFhABb0ABAJABBIFeR",
     "AbQAFABEBBb3A4AEBCAb2ACCBADBbQHIBfLAVAezWB9/TBCAcYBbSPeOBbPAbQBEBCCdOBCBYAbNABAdNACBFAhN",
     "BBBBBBAzaTABAd5AbNCEBdTAYBb1AbQCJBNAc3CDBBAfKC5Bb0BBDCBCCJAKBcUCHACABDBBBAdFCIBDAdKCGABD",
     "CAhNCGDCAdRCIBBAdNABBGAdHABBEAiFCJAhXFBBEACABAeOCIDEAcUA3Bb4AmXAOAdKAHACAgVEEBBAk4BMAbQB",
     "IBBAqpICdrEbWdIBylTBGF"]),
  (["me", "enclosingmark"],
    ["beIBfrUAbq4DBCbbmLC"]),
  (["nd", "decimalnumber", "digit"],
    ["bQJbrGJeGJgGJm2JdWJdWJdWJdWJdWJdWJdWJdWJdWJdAJdWJcGJiWJcGJb6GJbGJjMJeAJfGJGJfWJcWJeGJGJb",
     "coGJvGJbGJgGJWJcWJmWJuyWJbmGJceGJGJy2JeAJb2JeQJiWJkWJdWJlWJdGJGTcMJnGJdGJuWJcWJhWJcGJnGJ",
     "qoWJcjGJcWJeGJqWJx7WJcwUbRckAJnGJpWJhXJ6VJeuWJ"]),
  (["nl", "letternumber"],
    ["fxOCctPbCCDdt4AZIOC9vLJwsQbUoMAIAeGEibKdO"]),
  (["no", "othernumber"],
    ["fSBFACCcjVFlYFdYCeFGgZGRInRJbbVTbdTJpAAbuVADFGJgGPbJAwWb1cOVtW3blJAbeUDeKJ4HBObAJbHO9lQF",
     "wgRbMcBDRBkV0bEDbjUHZGbHIcLEWFfABCPCbNcAIbUB4CcLEdIHYHbJGkKFlA4e4JbKDdQGeGTl1TbkFBnOI7HS",
     "6TUs8GGy4WzbJTMTdMYfkOI9Bb0BCBDcMbMBO+CM"]),
  (["pc", "connectorpunctuation"],
    ["c5Ah+5BTAbxo4BYChPA"]),
  (["pd", "dashpunctuation"],
    ["bNAbk2AbTAdsBAbaFAcaJFdqBACA5BEA2An4ATAdPAbtmQBbFAKAfJAdtAAj4A"]),
  (["ps", "openpunctuation"],
    ["bIAbSA5Adv4ABAb64Acl4ADAbGAbXAPAt0ABA4Abb4ABABABABABABAcQAbAABABABABAmUABABABABABABABABA",
     "BABAcAABAbBAbbFABABABAZASABABABAnMABABABABADABABABACAbtjBAgXA3ABABABABABABABADARABABAfKA",
     "bSA5ADACA"]),
  (["pe", "closepunctuation"],
    ["bJAbTA5Adv3ABAb64AcnJAbXAPAt0ABA4Abb4ABABABABABABAcQAbAABABABABAmUABABABABABABABABABABAc",
     "AABAbBAbbFABABABAbMABABABAnMABABABABADABABABACBbti4AgZA3ABABABABABABABADARABABAfKAbTA5AC",
     "ACA"]),
  (["pi", "initialpunctuation"],
    ["fLAh7MACBCAZAdoIABAEACAPADA"]),
  (["pf", "finalpunctuation"],
    ["f1Ah63ADA2AdoIABAEACAPADA"]),
  (["po", "otherpunctuation"],
    ["bBCBCCABABBKBDB1AcEAFAOBHAv4AIAoSFbJAbWACACAbMBUBBBNABCcKDdGAbLNhJCbWO5AiFBKAeMAdYAdZAmG",
     "AMAlPAc0AKBfIOBAdQAcKEEBdPFfLAtEIyFAd2CcHBe3CBCbFFBDjZBgYBeAGBFfABKG2Cd2Db1Eb4BcAHLA6CBI",
     "HIICDCCDKBABJde0DBBdQAePBECCACIBBBACBKEBJCDBABMCCnMCbZAf3A9aCBiNCdDAKAdTFl2DcWBbICBAbRBb",
     "PAdBMQBd2Dd4BQBhZAurEGCAWAUBCDDCBDHCGABBeVCBCCABABBKBDB1AbEACBm0Cu2AbQAm4AxHAgHA5AiQIbGA",
     "dQGcCGcZD9YEbMDf3GdNBBDd4DbQBcPDEANABCcYFdLAjKBBBdSEKBBAdIAh0WdJC2McMAeCCh2AiICe1Ac2HcTC",
     "BEc3JgXAc5EbKBuFBcKMfPAbdQEc72Bot1BeFAcBEIArICjHDkHAtf2AhpHEc7TA64B"]),
  (["sm", "mathsymbol"],
    ["bLAQCb3ABAbNAEAbFA5Ax4AqPCgr1ANAbHCNCeLAbHEGAcEEFBEACACAHA5BCABA5iLbABc0A4YbIFoVAJAbWHdP",
     "AkQEC4KPiAeCWb4E5CiBbQUCFbt+2AzYABCfEAQCb3ABAeDAGDdnBBbsjRAZA5AZA5AZA5AZA5AZAfzMB"]),
  (["sc", "currencysymbol"],
    ["bEAd3DbhJAd1ApSBpSBHAhVAiHAsFAcm1AcgEbAbb7XAvoDAdMAe0Ag1BDBh/WDbqy4AcnQA"]),
  (["sk", "modifiersymbol"],
    ["c4ABAcHAGAEADAqJDMNFGBABQdVAOBbiCAfzUABCLCNCNCNBee2B9tDWJBdHB+QAOBucGQ71ABAfCAb9aXE"]),
  (["so", "othersymbol"],
    ["fGACAEABA+RAiKBd5BgOAKATBhXAqDAlVAeCFBAeEAgPAbJAmHCPABCCFUABABAeFHBFBBFDgFBxQJwTAwSAe3bB",
     "lBJJIbmDBBDBBKABBGFBABABAEALBOABBBAb0BJECDBBBBBGB4CBBAB4iMHETCGCcQB3ZbHGcHWKcRcNWfWBIBbV",
     "IdOBhXbMbLcAh5qAbPVBGbGC5BdIhFFlFBbOZBcYMgV0PEANBMAVBGBkQBEJbAbFJAQ4L3IAP5KbGPj5goAb5vuQ",
     "bW7BDKBBAr3CuwGPd5AbNCpEADAEBNBjZIbZQCCBMDAbPbMbt0BsPAddWAceVHEQs6KDFAukWAd7DhPQnTe2dTb2",
     "hVKbGCb1FCWBH3Eb2VcBDAf0cWbfJp5bXDbSHBNBBbwIAc62AeBAwRbLEdDMOCOBOBbEXfAbY2NbLEIHBOFe0h0F",
     "wXEQDMDdWEc4GLEAPLEbXIJGbHI3CLEBb4kTMNCMDJFbXHOCKGIHeSBc1"]),
  (["zs", "spaceseparator"],
    ["bAAd5Afo5Acl5KbEAbPAd9AA"]),
  (["zl", "lineseparator"],
    ["ibIA"]),
  (["zp", "paragraphseparator"],
    ["ibJA"]),
  (["cc", "control", "cntrl"],
    ["A5c5bA"]),
  (["cf", "format"],
    ["fNAbkSFWAgAAbRAmABcQAdzLAb/2E0EbREBJbxuPAhZCegBAPAi7CPbcdADfgPHyluGA4c5"]),
  (["co", "privateuse"],
    ["byaAgh58byAb//3Cb//3"])]

/-- The coarser classes: the loose forms of the names of each, and the categories they join. -/
def categoryGroups : List (List String × List String) := [
  (["l", "letter"], ["lu", "ll", "lt", "lm", "lo"]),
  (["lc", "casedletter"], ["lu", "ll", "lt"]),
  (["m", "mark", "combiningmark"], ["mn", "mc", "me"]),
  (["n", "number"], ["nd", "nl", "no"]),
  (["p", "punctuation", "punct"], ["pc", "pd", "ps", "pe", "pi", "pf", "po"]),
  (["s", "symbol"], ["sm", "sc", "sk", "so"]),
  (["z", "separator"], ["zs", "zl", "zp"])]

/-- Every assigned code point, private use included. -/
def assigned : CodeSet :=
  categoryTable.foldl (fun acc row => acc.union (CodeSet.ofLines row.2)) CodeSet.empty

def elementary? (name : String) : Option CodeSet :=
  (categoryTable.find? (·.1.contains name)).map (CodeSet.ofLines ·.2)

def category? (name : String) : Option CodeSet :=
  match elementary? name with
  | some set => some set
  | none =>
    match categoryGroups.find? (·.1.contains name) with
    | some (_, parts) =>
      some (parts.foldl (fun acc part => acc.union ((elementary? part).getD .empty)) .empty)
    | none =>
      match name with
      | "any" => some CodeSet.full
      | "ascii" => some (CodeSet.range 0 127)
      | "assigned" => some assigned
      | "cn" | "unassigned" => some assigned.compl
      | "c" | "other" | "isc" =>
        some (["cc", "cf", "co"].foldl
          (fun acc part => acc.union ((elementary? part).getD .empty)) assigned.compl)
      | _ => none

end SourceEdit.Unicode
