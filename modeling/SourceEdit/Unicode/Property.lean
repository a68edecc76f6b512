import SourceEdit.Unicode.Category
import SourceEdit.Unicode.Script

/-!
# Character properties by name

Properties that a character has or lacks, and the loose matching of the names of properties,
categories and scripts: letter case, spaces, underscores, hyphens and a leading "is" do not count.
-/

namespace SourceEdit.Unicode

/-- The properties: the loose forms of the names of each, and its members. -/
def propertyTable : List (List String × List String) := [
  (["asciihexdigit", "ahex"],
    ["bQJHF0F"]),
  (["alphabetic", "alpha"],
    ["cBZGZbPAKAEAFWB4BoJELOEHABAcWA3RBBCDBAGABCBABTBcSBeKIfFBbFCAGbIbHNBABBBBBAI0ED3KFbXBGOdF",
     "BHEHECKCCAQbPNdEYbAJBEAFXCSTYHKFXBFIAIbJKLDGGcLBPBCEONSBHCBCVBGBADDDHCBCBBAIAEBBEMBKAECB",
     "FEBCVBGBBBBBBEEEBCBEAHDBARFLCBIBCBVBGBBBEDIBCBBDAPDVDECBHCBCVBGBBBEDHCBCBJBEBBENAQBBFDCB",
     "DDBBABBDBDCDLEEDCBCDAGAbIMBCBWBPDHBCBCIBBCCACD2DBHBCBWBJBEDHBCBCIBGBBDNCMMBCBbICHBCBCBAF",
     "DHEWFBCBRDXBIBACGIFBABHSBNbZFGGAbTBBABEBXBABSBCCEBAGAODbAAb5HBbDESEPBbDcDbWBACEQb5KDCbFB",
     "AFACbKBkMBDCGBABDCbIBDCbABDCGBABDCOBbYBDCcCbFPQcVCFDtLCQBZFcKDKHTLUMTMMBCBBMbTCSOAEAcDcY",
     "HbKFcFK4BLEIX3CELbLEZbW1Eb4CTbSAXBLCbRbTBOBHbTbJCDKbLBKObWWCKbDCKFbKCCbJDBFBBDAFf5TbBLiV",
     "CFCbFCFCHBABABAB4CbUBGBADCBGDDCFEMFCBGdUANAQMdFAEACJBADEGABABABDBKCDFEEARbIzNbTbyWhEGDDB",
     "MbFBAFACbXHAQWJGBGBGBGBGBGBGBGB5bPAoVCZIHECEEcVGCBcZBDFbKBc3R5bQPqAgn5cAvuMcDbNCiMDPKBUb",
     "OFHDdQbHICdGCcCCBBABHVTBbAYbTMcDBAbMFDABCKbAFbCN2DbSBLPAQPKEBbWJNSWDcEBABAYCCPCDLFCFCFJG",
     "BGBbKBNGd0Vk9DMWEbQiiElNCdJbGGMEFLBMBEBABBBBBdLbBlKSb5CbVbILdUEBeGbEZGZLcYDFCFCFCCbDLBZB",
     "SBBBOCNbCd0cFbUiL2DbQbP5N3FbKF3CbDEHBEbKe3SbDEbDEbHIbTMKBOBGBBBKBOBGBBDbTMjWJVKHYFBbJBIc",
     "FFCABbLBBDACWKWJ4cBSBBKVKZcGbXGBcADBBFHBCB2bK2D2bDHB11bVKVKSNRdOcIbXbSNbSNbHbC1DAFWh0bJB",
     "BDBQCbXAD2KAIVbKRbOU1WJcFbLEKbYJANYXbSRDIbCDAJb5BDJBKABAbDRBbBCAGDb4GBABDBOBJHbYXDBHCBCV",
     "BGBBBEDHCBCBDAGAFG2JBACABbFBJBACABDBBDABAbMcBBCBDUC4cBCBBAfYbVCGZFbCb4BADAb1bVCAcH0CNVGf",
     "ZbYdHb55HCACHBBB3BBCBCDc3HCbNCFBABB1bSCJRcHFAScIgHbA5IBbMBGBAbR3CVBNcJGBBBbLDABBBCBACBYF",
     "BBBbEBBBDBAkHWJQBbIDCdPAcP8ZdGdORgDcsMdAPbbPRFZd80FsGgvZbObwRrYH4RcOR3SbPQD5UFSnQbMgTb5e",
     "AcKEbYHQcABBAMBOf/XIbgVbJJixHDBGBBBjCPA3CCAODImLciEdKFMDIHJEAf7BcUBcGBBCACBCDBLBABGBcABD",
     "CHBGB1BDBEBADGBkTCYBYB4BYB4BYB4BYB4BYBHbzU4GFgVGBQCGBBBEFb3bBAdQbMKGQAkB3SbLpE1hE3CApPGB",
     "DBBBOBgEb1cDDADAbfUDB0BBBACABJBDBABAGAEABABABCBBBACABABABABABBBACDBGBDBDBABJBQFCBEBQtUZG",
     "ZGZdtWbjw5bAebZGg3CfuBOhjQPtNcnCq3bpCe6KFec5"]),
  (["bidicontrol", "bidic"],
    ["bq2AgpRB0EbXD"]),
  (["bidimirrored", "bidim"],
    ["bIBSABA2ABA3ABAbNAPAdt4Db63Bcm2BKBbWBOBfRAgADDFDADBDDBDBABAEIFABRFDJBBABHB5CDFAJBCSFBJEC",
     "BEXCPIDUBHBbb3NcKACDBBBCFDFCDNmTVCFBNIAHFDAEEBBCEEABCCBKFCBMSBDCABACABDFBGCYBLBEDBBCBEbK",
     "CHBbHFABADEFCEADEBAiAAqDDDBBBOBCJbLHnLJCHbtr3FFBfCBSABA2ABA3ABABBBBbv7XAbZAbZAbZAbZA"]),
  (["caseignorable", "ci"],
    ["bHAGALAbDABAcHAEABAEACBpXf5EBEAJBBAh1GgPAFAbRbMBABBBBBAbMALFKKBAbDAKUQAdFHBJBDbBABA40c1K",
     "b0KEACAYXbLCbMAHBFIbJbZbXABAEHEADGKBNAPAb0AEDIAUB0ACBbZAEBEBCCDA4BDALBbZAEEBBEAUBWFBAb0A",
     "CABDIAHBLB4Ab3AMAbSADAbXABCFCBDHBLB3Ab0ACAGAFBUB2BbZBEDIAUB3AcIAHCBAc0ACGLIdCACIJABGcJB1",
     "ABABAbXNBEBBFKBbDJAdGDBFBBCBZBECQDNACBGAPAc4AtAC9SC3B4B4BcABBGIACKDAFAbNEbTAcBBbCAdWCEBJ",
     "AGCg1BCAb0ABGBABACHGJCAbHAI4bRDbQABEBAFAbIIMBbADCBBCbYABBDABCb0HCBcAFcSCBMBGEAGADBbSb4NA",
     "bCdEn3ABCLCNCNCNBMEIBKACACEbREBJBANAQMbTbAc8LBdRCd3APAdA5bPAoVAbEDDEFAc3Fc3C7yWAbhCFiOAd",
     "CDBJBA2DcQBObBcOAXCdHCDBIADAEAZBFAeXB0RNAbGHZKbOCbQACDCBRAVBcCFCBCBMAIAbDALAbTABCCBFBBA1",
     "AOBFBBAdEEJCdZACAEAtzQAeTQr3PDAMPbCACAfJAHAGALAbDABAbPAbNBcDAVCqBAhCAeVEbaFFBbJBIsGCBBFD",
     "bICEAfFBr3DbGA0EBAj1BcPDcGKbRDd1AbWObJACBKCbRDCBCAEAKAbSCbEEBHb4AMBbUIKDCAc5CCABBGACAe3A",
     "DHVBbZBDAbFGDEcGFNABABAOBcVHCCBAXAcUFBAEBBBhODGBBB1BcVHCABBdKABACFBAdFABACDBEiDIBBiABBAE",
     "AeQDCBEAbAJbIFCDIAJFCCbOMBBmWGBFBAcSVCGBBBBd0FDABBBGBAcIBDABAk1BLBbUEFABAXAfgVQGOlgILDCc",
     "oAEb1GJDp2CbIBpCAb5QcABBBqaLDBGBBde4BBDes2bNCWrACJPCG4DeUCb91bWEbRIAOAWEBObkQGBQCGBBBEFb",
     "3bBAfANlQAb3Dp1Eh4BxAGdNHcvPEydaBA4c5eAhP"]),
  (["cased"],
    ["cBZGZbPAKAEAFWB4BgCBDEgPCbCHB4EdAAbKDCBCDBAGABCBABTBcSBeKIfFBbFJbIcyXbFBAFACbKBDvAcVCFce",
     "CKFbKCCcAf5cAiVCFCbFCFCHBABABAB4CbUBGBADCBGDDCFEMFCBGdUANAQMdFAEACJBADEGABABABDBFEACDFEE",
     "AR5DBzRbTbyWhEGDDBMbFBAFA+iSbNS3eEdFDDBb3CBBABHVEBCzVbKBNGcPt6AGMEbaJZGZbfFcPdAbDEbDdUKB",
     "OBGBBBKBOBGBBoDACCBbJBIbgFbSNbSc3VKVcy0b5vlAb5zmAcUBcGBBCACBCDBLBABGBcABDCHBGB1BDBEBADGB",
     "kTCYBYB4BYB4BYB4BYB4BYBHbzUJBTGFiFb3ceScDb/MZGZGZ"]),
  (["changeswhencasefolded", "cwcf"],
    ["cBZc0AKWBHbAABABABABABABABABABABABABABABABABABABABABABABABABABABABACABABABABABABABABBBAB",
     "ABABABABABABABABABABABABABABABABABABABABABBBABABABBBABBBCCDBBBCDBBBBABABBBACABBBCBABBDAH",
     "BBBBBBABABABABABABABACABABABABABABABABACBBABCBABABABABABABABABABABABABABABABABABABABABAB",
     "ABABABABABABABAHBBBCABDBABABABAhWAbKABADAIAGABCBABBBQBIWAMCDBBABABABABABABABABABABABABBC",
     "BBABBCbSbQABABABABABABABABABABABABABABABABAJABABABABABABABABABABABABABABABABABABABABABAB",
     "ABABABABABBBABABABABABACABABABABABABABABABABABABABABABABABABABABABABABABABABABABABABABAB",
     "ABABABABABABABABABABABABABABABACbFbQAcyYbFBAFAzKFceCJGbKCCkAABABABABABABABABABABABABABAB",
     "ABABABABABABABABABABABABABABABABABABABABABABABABABABABABABABABABABABABABABABABABABABABAB",
     "ABABABABABABABABABABABABABABABABAFBCABABABABABABABABABABABABABABABABABABABABABABABABABAB",
     "ABABABABABABABABABABABABABABABABABABABABABABAJHIFKHIHIFLABABABAIHQbPCCCFFCCFLDMEFCCFjJAD",
     "BGAbNPTAzSZbzQbPbQABCCABABABDBACAICBABABABABABABABABABABABABABABABABABABABABABABABABABAB",
     "ABABABABABABABABABABABABABABABABABABABABABABAIABAEA+kNABABABABABABABABABABABABABABABABAB",
     "ABABABABABATABABABABABABABABABABABABABAeHABABABABABABADABABABABABABABABABABABABABABABABA",
     "BABABABABABABABABABABABABABAKABABBBABABABAEABACABADABABABABABABABABABABEBEBABABABABABABA",
     "BDBABBDAFABABABAYA70cPt6AGMEbaJZbgFbHeIbDe2KBOBGBBbxKbSe3Vcz05vmA5+vAbB"]),
  (["changeswhencasemapped", "cwcm"],
    ["cBZGZb0AKWB4Bb5BcTB1CNCBBAEc2BRG0BBBABBDBBDBECABBCAHACABBDFFAKBfGAbKDCBDCBAGABCBABTBbODb",
     "ABEBeEIfFBbFKbGcyYbFBAFACbKCCvAcVCFceCKFbKCCfZADAQAdRe1CABdVCFCbFCFCHBABABAB4CbUBGBADCBG",
     "DDCFEMFCBGjJADBGA1AR5DBzRbTbyWdQBBBBHdFHDDBMbFBAFA+iSbNS1eGNCb3JODCCEBYB3CBBABHYB62A2cPt",
     "6AGMEbaJZGZbfFcPdAbDEbDdUKBOBGBBBKBOBGBBbwDbSNbSc3VKVcy0b5vlAb5+uAcD"]),
  (["changeswhenlowercased", "cwl"],
    ["cBZdFWBGbBABABABABABABABABABABABABABABABABABABABABABABABABABABABACABABABABABABABACABABAB",
     "ABABABABABABABABABABABABABABABABABABABABBBABADBBABBBCCDBBBCDBBBBABABBBACABBBCBABBDAHBBBB",
     "BBABABABABABABABACABABABABABABABABACBBABCBABABABABABABABABABABABABABABABABABABABABABABAB",
     "ABABABABABAHBBBCABDBABABABAjBABADAIAGABCBABBBQBIbDAIABABABABABABABABABABABAFACABBCbSbQAB",
     "ABABABABABABABABABABABABABABABAJABABABABABABABABABABABABABABABABABABABABABABABABABABABBB",
     "ABABABABABACABABABABABABABABABABABABABABABABABABABABABABABABABABABABABABABABABABABABABAB",
     "ABABABABABABABABABACbFc6JbFBAFAwScVceTAGbKCCkAABABABABABABABABABABABABABABABABABABABABAB",
     "ABABABABABABABABABABABABABABABABABABABABABABABABABABABABABABABABABABABABABABABABABABABAB",
     "ABABABABABABABABABAJABABABABABABABABABABABABABABABABABABABABABABABABABABABABABABABABABAB",
     "ABABABABABABABABABABABABABABAJHIFKHIHIFLABABABAIHYHIHIHIELELDMELEjJADBGAbNPTAzSZbzQbPbQA",
     "BCCABABABDBACAICBABABABABABABABABABABABABABABABABABABABABABABABABABABABABABABABABABABABA",
     "BABABABABABABABABABABABABAIABAEA+kNABABABABABABABABABABABABABABABABABABABABABABATABABABA",
     "BABABABABABABABABABAeHABABABABABABADABABABABABABABABABABABABABABABABABABABABABABABABABAB",
     "ABABABABAKABABBBABABABAEABACABADABABABABABABABABABABEBEBABABABABABABABDBABBDAFABABABAYAv",
     "zLZbgFbHeIbDe2KBOBGBBbxKbSe3Vcz05vmA5+vAbB"]),
  (["changeswhentitlecased", "cwt"],
    ["dBZb0AbJXBHBABABABABABABABABABABABABABABABABABABABABABABABABABABABACABABABABABABABBBABAB",
     "ABABABABABABABABABABABABABABABABABABABABACABABCCABACADAFACADCCACABABACAEACADABACADABAEAB",
     "BBBBABABABABABABABABBBABABABABABABABABCBABADABABABABABABABABABABABABABABABABABABABADABAB",
     "ABABABABABABAIACBBAEABABABABFBBBABBDBBDBECABBCAHACABBDFFAKBfGAbLABADADCSA1bCBBDCBABABABA",
     "BABABABABABABABEBACACAbUbPBABABABABABABABABABABABABABABABABAJABABABABABABABABABABABABABA",
     "BABABABABABABABABABABABABACABABABABABABBBABABABABABABABABABABABABABABABABABABABABABABABA",
     "BABABABABABABABABABABABABABABABABABABABABABABABAbRbGdtQFceCIBAhOADAQAdSABABABABABABABABA",
     "BABABABABABABABABABABABABABABABABABABABABABABABABABABABABABABABABABABABABABABABABABABABA",
     "BABABABABABABABABABABABABABABABABABABABABABGFABABABABABABABABABABABABABABABABABABABABABA",
     "BABABABABABABABABABABABABABABABABABABABABABABABABABIIFKHIHIFKHIHINCHIHIHIEBBGADCBBIDCBIH",
     "KCBBkWAbBPEA6LZb6GbPBADBBABABAGACAKABABABABABABABABABABABABABABABABABABABABABABABABABABA",
     "BABABABABABABABABABABABABABABABABABABABABABABAIABAEAMbFBAFA+iTABABABABABABABABABABABABAB",
     "ABABABABABABABABABATABABABABABABABABABABABABABAeHABABABABABABADABABABABABABABABABABABABA",
     "BABABABABABABABABABABABABABABABABABAKABACABABABABAEAEABBCABABABABABABABABABALABABABABABA",
     "BABAEABACADABABABABABA0A62A2cPt6AGMEbbJZbgNbHeIbDe1KBOBGBBbyDbSd3Vcz05vmA5+vCbB"]),
  (["changeswhenuppercased", "cwu"],
    ["dBZb0AbJXBHBABABABABABABABABABABABABABABABABABABABABABABABABABABABACABABABABABABABBBABAB",
     "ABABABABABABABABABABABABABABABABABABABABACABABCCABACADAFACADCCACABABACAEACADABACADABAFBB",
     "BBBBABABABABABABABBBABABABABABABABABBBBBADABABABABABABABABABABABABABABABABABABABADABABAB",
     "ABABABABABAIACBBAEABABABABFBBBABBDBBDBECABBCAHACABBDFFAKBfGAbLABADADCSA1bCBBDCBABABABABA",
     "BABABABABABABEBACACAbUbPBABABABABABABABABABABABABABABABABAJABABABABABABABABABABABABABABA",
     "BABABABABABABABABABABABACABABABABABABBBABABABABABABABABABABABABABABABABABABABABABABABABA",
     "BABABABABABABABABABABABABABABABABABABABABABABAbRbGc6IbKCCxYFceCIBAhOADAQAdSABABABABABABA",
     "BABABABABABABABABABABABABABABABABABABABABABABABABABABABABABABABABABABABABABABABABABABABA",
     "BABABABABABABABABABABABABABABABABABABABABABABABGFABABABABABABABABABABABABABABABABABABABA",
     "BABABABABABABABABABABABABABABABABABABABABABABABABABABABIIFKHIHIFKHIHINCbUBBEABADCBBEADDC",
     "BIHKCBBEAkRAbBPEA6LZb6GbPBADBBABABAGACAKABABABABABABABABABABABABABABABABABABABABABABABAB",
     "ABABABABABABABABABABABABABABABABABABABABABABABABABAIABAEAMbFBAFA+iTABABABABABABABABABABA",
     "BABABABABABABABABABABABATABABABABABABABABABABABABABAeHABABABABABABADABABABABABABABABABAB",
     "ABABABABABABABABABABABABABABABABABABABABAKABACABABABABAEAEABBCABABABABABABABABABALABABAB",
     "ABABABABAEABACADABABABABABA0A62A2cPt6AGMEbbJZbgNbHeIbDe1KBOBGBBbyDbSd3Vcz05vmA5+vCbB"]),
  (["dash"],
    ["bNAbk2AbTAdsBAbaFAcaJFb3AbHAPAmGAdaEACA5BEA2An4ATAdPAbtmQBbFAKAfJAdtAAj4A"]),
  (["defaultignorablecodepoint", "di"],
    ["fNAvBAwMAc6CBbsTBcVEb/1E0EbRPehUAbte1PhPAfAAcPIbpfHDfgPHyluFd/5"]),
  (["deprecated", "dep"],
    ["kJAbjJAciDABAcbJBcgFFvZB7xgWA"]),
  (["diacritic", "dia"],
    ["c4ABAcHAGAEACBpXe4BHFFRBEAJBh3EgRAbXbMBABBBBBAeDHEBeGBEBDCcD0c1Kb0KbCBd4HbJJQ1b3AQADD2Ac",
     "KAQAdOAQAdOAQAbPCb2AQAHAdXAdOAQAdOAQAdNBQAd2AdPAMFBAdLANEcLB1ABABAEBcCCBBb4AdQABBbIBEEZG",
     "BAKBwBC9UB4AeUKJAk1CjEAUHCAbQOCKdIAPAbGIbWBb0ALBcCBcAFcSYEAGACCbSb4bQbDFLbFKn3ABCLCNCNCN",
     "BdhQCj3Ap0FdJDc5A9lSAMBBA2BcSBObBdGCdNBMAbFAeXA1RbZDbEAc5AMAbEAeVCcBDbTAdEEJCeABtzQAyBPi",
     "OABAbPAbNBcDAx2Abe5FBbJBIt3CEAfFBr1FbGA0EmPCcGKbRDgAAbJAcIBdYBb4AcMAJCdIBfSBcQBQAYGDEcZC",
     "BBNBc5ADAd1Bh1Bd4AdWBdTAiNBiCBEAe2AcTASAcRAnFAiCABBcRAnJBXAfhMOlgZAcoAEb1GrUBrCQcQBp/4DB",
     "GBBhyBbNCWrACDFIHCG4DduCb3gCGlXAb3Dx4BxAGdNCBC"]),
  (["emoji"],
    ["bDAGAFJdPAEAh8NAMAgYAWAc0FPBlPBMAfGAZKECgHAhHBKAJAb0DBEJACACBCAEACABBCADADBICFABAFLLBCAB",
     "BBASACBSFBABBDBFACBEBLBFBCAFBBABBUBFFBDCAEACACFBACABABAGADAGAKBPACAEABAECBALBbQCJAOAOAlU",
     "BoPCTBbTAEAbg0AMAsZABAdplKAgKAfABMBOACJcLZBBXAUACIVBfObBCdPCBBCCcSCCBiGBb4LFBXHBCHMACDCA",
     "EBNBCAIBJAFCMCICCABAEAGADAGcVbQcFFHCCEJDABBDACJhDLEAi1bOBJBfYdQMDJFbXHOCKGI"]),
  (["emojicomponent", "ecomp"],
    ["bDAGAFJh+TAgVAbxjLAb8+WZp1EbnQDybtMc5"]),
  (["emojimodifier", "emod"],
    ["d8/1E"]),
  (["emojimodifierbase", "ebase"],
    ["jq3Ag1AQDdtdXAb2CCACCdVBCKVSDAECBCHABAYAgJBEAVAEBfOCDEcTAQCJALAr5ACAIHGAJJCCbYAb3BBBBARC",
     "BMhFCbKI"]),
  (["emojipresentation", "epres"],
    ["iy0BgNDDACAqJBVBbSLbLATANAIBRBFBIAFAVAHBBAEACAHAEB2AbDABAECBAb3CYAOA61BbTAEAdrfOAgKAf4AC",
     "JcLZBAYAUACEBCVBfObAMIBcFBVMbKEEMQDADcGBABf0Cb4NDBXSA0BNAcWcUbQcFGADCCCEDLBHIhDLEAi1bOBJ",
     "BfYdQMDJFbXHOCKGI"]),
  (["extendedpictographic", "extpict"],
    ["fJAEAh8NAMAgYAWAc0FPBlPBMAfGAZKECgHAhHBKAJAb0DBEJACACBCAEACABBCADADBICFABAFLLBCABBBASACB",
     "SFBABBDBFACBEBLBFBCAFBBABBUBFFBDCAEACACFBACABABAGADAGAKBPACAEABAECBALBbQCJAOAOAlUBoPCTBb",
     "TAEAbg0AMAsZABAdplKAbHDdELPBPAOBbFJdQBMBOACJTbX1OKAUACIBDJWGf1CdPCBBCCcSCCBDFh3Bb4LFBXHB",
     "CHMACDCAEBNBCAIBJAFCMCICCABAEAGADAGcVbQcFFHCQDABFCMg0bFMDbYHKFbIH4BMDCNJbGMbOBJBfYcYHOeR",
     "iA/3"]),
  (["extender", "ext"],
    ["fXAqYB7OAnZAtWAeJAcZAxQAd5AckDAbYAtDAmOAcEAe8JAbLEdHBc3C7yWAbpWA+CAWAeJAdMAVBvd1AcaQBboL",
     "A1AEAbgHAjFAdUBpSCbgPAufJBbe2BBA8kYBbfRA6UC"]),
  (["graphemebase", "grbase"],
    ["bAc4bBMBsRdQHCFEGBABTBg5HfFBbFCbRCCbOABACACAJ0EFRJLABbNVPBdEIAGBCAE5CAB33cYLAObKJGDXEAJA",
     "DAHOBYFABKF4RbJbZbWBABDIDBCHJC2BBBHCBCVBGBADDDABBGBCBBANBBCEXFABFEBCVBGBBBBBBECYDBAHJCCB",
     "AMABIBCBVBGBBBEDDIABBDAPBELHAIBBHCBCVBGBBBEDACAGBCBPBBCERLABFDCBDDBBABBDBDCDLFABBDCBCDAV",
     "UGCBHBCBWBPDADDTCCACBEJHJBKBCBWBJBEDBCABBYBBBEJBCOKBCBbICABBFCBCBBECBJEZCBBRDXBIBACGJBGG",
     "HJCCMbPBBLHIMbFBBABEBXBABJBBJACEBAJJCDbAXC0BABABNBbDSAFACEbRHBFBMbFbMEAGACBCYCDDPEMBBCFB",
     "OBbHBAFAClYBDCGBABDCbIBDCbABDCGBABDCOBbYBDCcCF2DZGcVCFCu2DcYHRNSDBJROMBCPbTCAHHBBLIDJGJG",
     "KFJGcYHECbBBAFcFK4EDCCEBBFHADbJCELbLEZGKDbYCBDbXBAJABBIFNJGJGNcWbPKDDHB2JLC5EBGbXBACCBAN",
     "bPIBFODb3FbKCKLANAHDBFBCCAFf5cAiVCFCbFCFCHBABABAB4CbUBOBNCFBSCCBIBKFXHbQQBC0BMDbAb5eLEuZ",
     "WKVbyTC5BkXDBFbMBAFACbXHBPWJGBGBGBGBGBGBGBGbBc3bCZBcYMgV0bZGPBcVEdEFbKBc3BcVJbPB8tMDbWJk",
     "1UbOEAK5CcPCFIgNCBBABHVPBCBDBYCEEJGbXIcDKLYMBbFIYLAM3GbPBBEBCBBMBKEGBYBbIGBCBLCBHBACJC5B",
     "bSBADBCECABAYQCHLFCFCFJGBGBb1EdUBBBDDJGk9DMWEbQiiElNCdJbGGMEFABXBEBABBBBBd2Qn2CbVHAbAPQJ",
     "WbCBSBDEEBeGEe2C4DFCFCFCCDGBGNBCLBZBSBBBOCNbCd0FCEbMDcXBMDAbPbMeD2DbQQ0EbDJ3FbFK3BbEENbK",
     "e3CJGbDEbDEbHIbTLLBOBGBBBKBOBGBBDbTMjWJVKHYFBbJBIcFFCABbLBBDACWBcHIIbQSBBFbAD0FAcAbXETCb",
     "OPDBCB2KIHIHb5bAbEGLJbVD2C0FZHDMGcQcIbXbSNbSHbJMJGbFIXIBgQ4BbJDACBQCb1bHIVLIWREDbG1UWJAB",
     "bVPGE3BBCAMbQEBCBBDOYHJJbDFAJRIbCBCLbTJABHEBBPBTLRB1DBEFBBb5GBABDBOBKGbOBCNJIBBHCBCVBGBB",
     "BEDABABDCBCBDAMG2JBACABbFBABBPABBDABCBBbHbXIBDABUBABC4bPBBGABBBACACDIJfGbOBBGDCAC0bEbSIB",
     "BACDLJGMTbKBABBIBGJGT20DABBEAJWfZbOJACAdEcSMHCACHBBBXBEBBGDBCJJcGHCbJIDBD1AKbHGBEHJAGBDb",
     "NNACINcIHJfWbBOJGIBbFOABFK2D5ZAHACAcLGBBBbFVAJJGFBBBbEEBBABAHJjWSCDJOBbDIBDWcWAPbRN80dGd",
     "OBELgDcsMdCNbbPRFZd80FsGgvZ3MCDJbwGrYH4BJEcQBJG3HAKbPHOKJBGBUFSnQbZgGc0dFcKFbXLMcAD2f/XI",
     "bgVbJJixHDBGBBBjCPA3CCAODImLciEdKFMDIHJCACAd7AhZGnTe2dTb2hVKbGCb1FCWBH3Eb2VcBDAd0TMTMcWJ",
     "YeHcUBcGBBCACBCDBLBABGBcABDCHBGB1BDBEBADGBkTCjDCrRbXDbSHBNBGbdU4GFiFb3eSbMKGCJEBkA3SbLEJ",
     "FAoQ1EJgW3CKEApAGBDBBBOBgECIbQcDHAEJEByRcDcMb2gCDB0BBBACABJBDBABAGAEABABABCBBBACABABABAB",
     "ABBBACDBGBDBDBABJBQFCBEBQbUBiObLEdDMOCOBOBbEKfNbY2NbLEIHBOFe0+XEQDMDdWEc4GLEAPLEbXIJGbHI",
     "3CLEBb4kTMNCMDJFbXHOCKGIHeSBdFbaGbjw5bAebZGg3CfuBOhjQPtNcnCq3bpCe6KFec5"]),
  (["graphemeextend", "grext"],
    ["yAdPiTGiHbMBABBBBBAcIKbQUQAdFGCFCBBDbDA40c1Kb0IJAYDBIBCBEbLCb1IbKXB5bXABAEHEADGKB3Ab0ABA",
     "CDIAJAKB0ACBbZAEBEBCCDA4BDALBbZAEEBBEAUBWFBAb0ABBBDIAHCKB4Ab1ABAMAJAbIADAbXABCFCBDHBLB3A",
     "b0ACBBADCBDHBLB2BbZBBACDIAJAKB3AcIAEACCBAIAcRACGMHdCACILGcJB1ABABAbXNBEBBFKBbDJAdGDBFBBC",
     "BZBECQDNACBGAPAv5C9SD2C3B4BcABBGIACKJAbNCBAdVBbCAdWCEBJAGCg1BCAb0ABGBABACHGJCAbQ4bRDbQJE",
     "CbGIMBbADCFbYABBDABEbYHCBeYCBMBGEAGADBgGb5qMAgDbAc/4CeNAdA5rKFdJB9oUDBJbABcQBiQADAEAZBFA",
     "eXB0RNAbGHZKBAbMCbQACDCBCAbEAcDFCBCBMAIAbPAbTABCCBFBBAbKBIAhOACAEAtzQAxBPQPlOBs3AhCAeVEb",
     "uGCBBFDbICEAfFBr3DcBEj3BcPDcGKbRDd1AbWObJACBKCbRDCBHAb3CbEEBHb4AMBbUIBAIDCAc5CCDGACAe3AD",
     "HVBbZBBABAMAJAOGDEcDACFBACABCECBAOBcVHCCBAXAcRACFBACABBBBhLACDGBBB1BcVHCABBdKABACHdFABAC",
     "DBEiDIBBhVAKDEAeQDCBEAbAJbIFCDIAJFCCbOMBBmWGBFBAcSVCGBBBBd0FDABBBGBAcIBDABAk1BLBbUEFCXAf",
     "hFAGOlgILDCcoAEb1GbaYAb5DcRALBtfLBetBbNCWq4EDFIHCG4DeUCb91bWEbRIAOAWEBObkQGBQCGBBBEdEAfA",
     "GlXAb3Dp2Dh4BxAGdNGyfwVc5eAhP"]),
  (["hexdigit", "hex"],
    ["bQJHF0Fb/vJJHF0F"]),
  (["idsbinaryoperator", "idsb"],
    ["l/QBCJpRA"]),
  (["idstrinaryoperator", "idst"],
    ["l/SB"]),
  (["idcontinue", "idc"],
    ["bQJHZEABZbPAKABACAFWB4BoJELOEHABARdUBBCDBAGEBABTBcSBeKBECfFBbFCAGbIIbMBABBBBBAI0ED3KFcJE",
     "dFBHCJBSCAQb0CdEObVEACACbNS1EKFXBFIcKBeACJBSBHCBCVBGBADDCICBCDIAEBBECLKABACCBFEBCVBGBBBB",
     "BBCABEEBCCDAHDBAHPLCBIBCBVBGBBBECJBCBCCAPDCJJGBCBHCBCVBGBBBECICBCCHCEBBECJBAQBBFDCBDDBBA",
     "BBDBDCDLEEDCBDCAGAOJQMBCBWBPCIBCBDHBBCCACDCJQDBHBCBWBJBECIBCBDHBGBBDCJBCMMBCBbSBCBEFDHEC",
     "JKFBCBRDXBIBACGDAEFBABHGJCBNbZFOBJbHBBABEBXBABWCEBABGBJCDbAAXBGJLABABAEJBbDETBRBbDJAbZcJ",
     "GcNCbFBAFACbKBkMBDCGBABDCbIBDCbABDCGBABDCOBbYBDCcCCCJIOPQcVCFDtLCQBZFcKDKHVJVLTMMBCBBMcT",
     "DAEBCJbBCBKGcYHbKFcFK4BLELKbHCELbLEZGKbF1Eb4B2CKGJNAINBPbRcMDJRIMdTMbXIJDbQCKFbKCCQCBbGF",
     "qVCFCbFCFCHBABABAB4CbUBGBADCBGDDCFEMFCBGPBbRBTA2ANAQMbTMEADLRAEACJBACFGABABABPCDFEEARbIc",
     "tXhEGIMbFBAFACbXHAPXJGBGBGBGBGBGBGBGB5qFCZOBECEEcVCGBc4FbKBc3R5bQPqAgn5cAvuMcDbNCiMD1UbP",
     "EJBdSbFICdGCcCCBBABHVbVEATbTMcFKJGXDABbQCbDM2DcAOKG4BbWJNCJGWDcIYCCPCEKFCFCFJGBGBbKBNGd0",
     "BBCJGk9DMWEbQiiElNCdJbGGMEFLBMBEBABBBBBdLbBlKSb5CbVbILEPQPDBYCbAEBeGTJHZEABZKcZDFCFCFCCb",
     "DLBZBSBBBOCNbCd0cFbUeIAeC2DbQPA55N3FbKF3CbDEHBEbKe3CJGbDEbDEbHIbTMKBOBGBBBKBOBGBBDbTMjWJ",
     "VKHYFBbJBIcFFCABbLBBDACWKWJ4cBSBBKVKZcGbXGBcADBBFHBCB2CCEAbA2D2bDHB3ZbVKVKSNRdOcIbXbSNbS",
     "NbHIJGbFDEBWh0bJBBDBQCbXbAKAIbA5VbKU1WJcG5PJb1HANYHJGbUBJEDIbDCAJcEEDBMBAbDRBbEGDb4GBABD",
     "BOBJHb0FJGDBHCBCVBGBBBEBJCBCCCAGAFGCGDELJBACABbFBJBACABDBHNB3cKFJED4cFBAIJfGbVCIXFbCcADA",
     "LJbGbYHJGT20COEJGGfZb0dFcJVHCACHBBB3BBCIMJcGHCbNCHBB1b4IAIcJDAScIgHbAPJGIBbMBIPJY3CVBNcJ",
     "GBBBbLDABBBIIJGFBBBbEBBBFHJjWWJQBbIDENKcVAcP8ZdGdORgDcsMdAPbbPQVKd80FsGgvZbZbwGrYH4BJGcO",
     "BJG3CELbWJDMJJUFSnQbMDJgGb5eAcKEbYHQcABBBLBOf/XIbgVbJJixHDBGBBBjCPA3CCAODImLciEdKFMDIHJD",
     "BecRJqGbNCWq4EDFIHCG4DeUCn1cUBcGBBCACBCDBLBABGBcABDCHBGB1BDBEBADGBkTCYBYB4BYB4BYB4BYB4BY",
     "BHCbRqAbWEbRIAOAWEBObcQ4GFgVGBQCGBBBEFb3bBAdQbMDNCJEAkB4RbZoWbJgWbKpFGBDBBBOBgELGbJcLEJb",
     "fGDB0BBBACABJBDBABAGAEABABABCBBBACABABABABABBBACDBGBDBDBABJBQFCBEBQdjUJbaGbjw5bAebZGg3Cf",
     "uBOhjQPtNcnCq3bpCe6KFec5vxkQhP"]),
  (["idstart", "ids"],
    ["cBZGZbPAKAEAFWB4BoJELOEHABAeBEBBCDBAGABCBABTBcSBeKIfFBbFCAGbIcH0EDbNbKbDBBdCBAPBHBKCCAQA",
     "B33cYLAYbAJBEAFVEAJADAXYHKFXBFRbJb0bVDASAHJPPEHCBCVBGBADDDAQANBBCOBKAIFEBCVBGBBBBBB5DBAT",
     "CQIBCBVBGBBBEDASAPBXALHCBCVBGBBBEDA4BBCPARABFDCBDDBBABBDBDCDLWAbUHBCBWBPDA0CCACB4AEHBCBW",
     "BJBEDA5BBBPBRIBCBbICAQAFCICYFFRDXBIBACGb0bPBBMGb0BBABEBXBABJBBJACEBAVDbAAb5HBbD1EdTbKUAQ",
     "FEDDADBHCEMMARbFBAFACbKBkMBDCGBABDCbIBDCbABDCGBABDCOBbYBDCcCbFPQcVCFDtLCQBZFcKDKHRNSOROM",
     "BCPbTbDAEAcDcYHbIBAFcFK4bR3CELbLEZbWWJbUcSAc3bORHbW3NBKbL0bDbJCKbDCKFbKCCbJDBFBBDAFf5cAi",
     "VCFCbFCFCHBABABAB4CbUBGBADCBGDDCFEMFCBGdUANAQMdFAEACJBACFGABABABPCDFEEARbIctXhEGDDBMbFBA",
     "FACbXHAQWJGBGBGBGBGBGBGBGrGCZIHECEEcVEEBcZBDFbKBc3R5bQPqAgn5cAvuMcDbNCiMDPKBUbOQ4CcPbHIC",
     "dGCcCCBBABHVPBCBDBW3bTObRb4FDABBL1KWZ2HbO2AQEBJKEBbIXCBHUWDADbRBADBCECABAYCCKHCMFCFCFJGB",
     "GBbKBNGdS3k9DMWEbQiiElNCdJbGGMEFABJBMBEBABBBBBdLbBlKSb5CbVbILdUEBeGbEZGZLcYDFCFCFCCbDLBZ",
     "BSBBBOCNbCd0cFbUiL2DbQbP5N3FbFK3CbDEHBEbKe3SbDEbDEbHIbTMKBOBGBBBKBOBGBBDbTMjWJVKHYFBbJBI",
     "cFFCABbLBBDACWKWJ4cBSBBKVKZcGbXGBcAAPDBCB2bK2D2bDHB11bVKVKSNRdOcIbXbSNbSNbDbG1JWh0bJGBQC",
     "b12KAIVbKRbOU1WMbUbZBCANbMbAY0bD3ACAIbCDAMbPODVABAbDRBYTBb5GBABDBOBJHbObGHCBCVBGBBBEDASA",
     "ME4JBACABbFBAZABAbMbUSDUC4bPUBBAfYbObJDbEbPUAb1bKNAcH0bFGfZbLdUb55HCACHBBBXPABAc4HCbGQAB",
     "A2AKbHHAVALbNTAScIgHbA5IBbERAbR3dQGBBBbFVAZFBBB5OAkHSPABMBbBd2AcP8ZdGdORgDcsMdAPbbPRFZd8",
     "0FsGgvZ3bxCrYH4RcOR3SbPQD5UFSnQbMgTb5eAcKFAcCMcABBA2f/XIbgVbJJixHDBGBBBjCPA3CCAODImLciEd",
     "KFMDIHJf7GcUBcGBBCACBCDBLBABGBcABDCHBGB1BDBEBADGBkTCYBYB4BYB4BYB4BYB4BYBHbzU4GFiFb3eSbMK",
     "GQAkB3SbLpE1hE3CApPGBDBBBOBgEb1cDHAbfUDB0BBBACABJBDBABAGAEABABABCBBBACABABABABABBBACDBGB",
     "DBDBABJBQFCBEBQekEbjw5bAebZGg3CfuBOhjQPtNcnCq3bpCe6KFec5"]),
  (["ideographic", "ideo"],
    ["maGBZIOC+Fgn5cAup5wiAlNCdJ9iKA1f/XIbgVbJJjdHmLtiEbjw5bAebZGg3CfuBOhjQPtNcnCq3bpCe6KFec5"]),
  (["joincontrol", "joinc"],
    ["iaMB"]),
  (["logicalorderexception", "loe"],
    ["dsAEd1EcxQCCAbeh0BCABB"]),
  (["lowercase", "lower"],
    ["dBZbPAKAEAbEXBHBABABABABABABABABABABABABABABABABABABABABABABABABABABABBBABABABABABABABBB",
     "ABABABABABABABABABABABABABABABABABABABABABABACABABCCABACADBEACADCCACABABACABBBACADABACBC",
     "CGACACABABABABABABABABBBABABABABABABABABBCABADABABABABABABABABABABABABABABABABABABABABAB",
     "ABABABABABABABABGCACBBAEABABABABcECbCHB4EdAAbLABADACDSA1bCBBDCBABABABABABABABABABABABEBA",
     "CACBbTbPBABABABABABABABABABABABABABABABABAJABABABABABABABABABABABABABABABABABABABABABABA",
     "BABABABACABABABABABABBBABABABABABABABABABABABABABABABABABABABABABABABABABABABABABABABABA",
     "BABABABABABABABABABABABABABABAbQbIc6HbKBDxYFceCIBAdVf5cBABABABABABABABABABABABABABABABAB",
     "ABABABABABABABABABABABABABABABABABABABABABABABABABABABABABABABABABABABABABABABABABABABAB",
     "ABABABABABABABABABABABABABABIBABABABABABABABABABABABABABABABABABABABABABABABABABABABABAB",
     "ABABABABABABABABABABABABABABABABABABABIIFKHIHIFKHIHINCHIHIHIEBBGADCBBIDCBIHKCBBdZANAQMdN",
     "ADBDA1AEAEACBIDEAbBPEA6LZb6GbPBADBBABABAEABBBHDABABABABABABABABABABABABABABABABABABABABA",
     "BABABABABABABABABABABABABABABABABABABABABABABABABABABABABBHABAEAMbFBAFA+iTABABABABABABAB",
     "ABABABABABABABABABABABABABABABATABABABABABABABABABABABABABCeFABABABABABABCBABABABABABABA",
     "BABABABABABABABABABABABABABABABABABABABABABABABJBABACABABABABAEABACABCBABABABABABABABABA",
     "BAFAFABABABABABABABAEABACADABABABABABAWCBABCzVbKBNGcPt6AGMEbbJZbgNbHeIbDe1KBOBGBBoDACCBb",
     "JBIbiFbSd3Vcz05vmA5zm0Z0GBR0Z0DBABGBK0Z0Z0Z0Z0Z0Z0Z0Z012YBF0YBF0YBF0YBF0YBFBAbzUJBTGFiFb",
     "3cfUbB"]),
  (["math"],
    ["bLAQC5A3ABAbNAEAbFA5AwYCCA0BCCqPCgqNA1CLADANAODVELEcBMEADBEESAEACJBACFGADBCBBCBFDNBAcEXB",
     "FBBEBE5BAGBOiLIDUBc0A40BAYALGn3BMJEFEBCBDEOABACFLHFBbZABA3DJCkQb5iAp5bQUCFbt+2AzXFBAfCAQ",
     "C3ABA3ABAeDAGDdnBBbrtQcUBcGBBCACBCDBLBABGBcABDCHBGB1BDBEBADGBkTCjDCbRfqADB0BBBACABJBDBAB",
     "AGAEABABABCBBBACABABABABABBBACDBGBDBDBABJBQFCBEBQbUB"]),
  (["noncharactercodepoint", "nchar"],
    ["b/oQ5qOBb//4Bb//4Bb//4Bb//4Bb//4Bb//4Bb//4Bb//4Bb//4Bb//4Bb//4Bb//4Bb//4Bb//4Bb//4Bb//4B"]),
  (["patternsyntax", "patsyn"],
    ["bBOKG0DBA0DbCGBABBBABBEAEADAXA5AhyYXIOCSBJjRwPfAtV4baBBdIqAd5mBCEYPAbtiNBiFB"]),
  (["patternwhitespace", "patws"],
    ["JESAdEAh8IBYB"]),
  (["quotationmark", "qmark"],
    ["bCAEAeDAPAh62HZBdqHAoJDNCbtrBDf3AEAc0B"]),
  (["radical"],
    ["luAZBcYMgV"]),
  (["regionalindicator", "ri"],
    ["d8pGZ"]),
  (["sentenceterminal", "sterm"],
    ["bBAMAQAbkJAeTCfUAbLChWAb3ABADBjFBbxEByWAEByFAgGBe3BbNAFAj0BlCDfCBKBCB3Cf1BcBB9EAXBJCdfPC",
     "jSANAWBnNA9h2AiOBhDADAl4BcWBc5AeYBeTCeQBhZAurGACBb1ADBfJAMAQAcBAcxUBbh3EbMDf3BdVDd5CeBBG",
     "AQBcYBBBdMAjKBdVBlVBFOdJBhZCqFABAh1BcXBnEBvUBcKBszJBeFAcBBLArJBjIAtqGAhpIA"]),
  (["softdotted", "sd"],
    ["dJBgEAiZA4AbUAUAkAAdCABAgiJAbTANADAeEAe3AnFAgWBczSAdj9FBbSBbSBbSBbSBbSBbSBbSBbSBbSBbSBbS",
     "BbSBceGAjRB0A"]),
  (["terminalpunctuation", "term"],
    ["bBAKABALBDAz4AIAqBAbZAcIAOABCfUAbLKBAhLBbWFBH5AiFBbhUBfMAEFjXByVHyFAd2CcHBe3CDAbHDCBj0Bl",
     "CDfCBKBBC3Cf1Eb4B9EAXBJCdfPCjSANAEAKABBDBnMB9h1BiNChDEl4BcWBc5AeXCeTCd5AQBhZAurGACBbZCBD",
     "fJAKABALBDAcBACAbb0AbQAbeGAgHAjWBeYFcEFcZD9YEbMDf3GdQDd5CeBBGAQBcYEdMAjKBdVCMBlGDDOdJBhZ",
     "CqFABAh1BcXBEBm4CbNAuFBcKBbjLErpZBeFAcBCKArJBjHBtqGAhpHD"]),
  (["unifiedideograph", "uideo"],
    ["naAgn5cAup5wqOBBABBKABABBCCcboWbjw5bAebZGg3CfuBOhjQPtNenCe6KFec5"]),
  (["uppercase", "upper"],
    ["cBZdFWBGbBABABABABABABABABABABABABABABABABABABABABABABABABABABABACABABABABABABABACABABAB",
     "ABABABABABABABABABABABABABABABABABABABABBBABADBBABBBCCDBBBCDBBBBABABBBACABBBCBABBDAHACAC",
     "ACABABABABABABABACABABABABABABABABACACABCBABABABABABABABABABABABABABABABABABABABABABABAB",
     "ABABABABABAHBBBCABDBABABABAjBABADAIAGABCBABBBQBIbDACCDABABABABABABABABABABABAFACABBCbSbQ",
     "ABABABABABABABABABABABABABABABABAJABABABABABABABABABABABABABABABABABABABABABABABABABABAB",
     "BBABABABABABACABABABABABABABABABABABABABABABABABABABABABABABABABABABABABABABABABABABABAB",
     "ABABABABABABABABABABACbFc6JbFBAFAwScVceTAGbKCCkAABABABABABABABABABABABABABABABABABABABAB",
     "ABABABABABABABABABABABABABABABABABABABABABABABABABABABABABABABABABABABABABABABABABABABAB",
     "ABABABABABABABABABABAJABABABABABABABABABABABABABABABABABABABABABABABABABABABABABABABABAB",
     "ABABABABABABABABABABABABABABABAJHIFKHIHIFLABABABAIHcIDMDMDMELDiGAEADCCCCADEGABABABDCDKBF",
     "A0PTAzSZbzQbPbQABCCABABABDBACAICBABABABABABABABABABABABABABABABABABABABABABABABABABABABA",
     "BABABABABABABABABABABABABABABABABABABABABAIABAEA+kNABABABABABABABABABABABABABABABABABABA",
     "BABABABATABABABABABABABABABABABABABAeHABABABABABABADABABABABABABABABABABABABABABABABABAB",
     "ABABABABABABABABABABABABAKABABBBABABABAEABACABADABABABABABABABABABABEBEBABABABABABABABDB",
     "ABBDAFABABABAYAvzLZbgFbHeIbDe2KBOBGBBbxKbSe3Vcz05vmA5znAZ0Z0Z0ABBCACBCDBH0Z0BBDCHBG1BBDB",
     "EBADG1Z0Z0Z0Z0Z0Z4YbBYbBYbBYbBYbBAejVbBcaOZGZGZ"]),
  (["variationselector", "vs"],
    ["gaLCBAbzpQP6axQhP"]),
  (["whitespace", "wspace", "space"],
    ["JESAdEA0Afo5Acl5K3BFAbPAd9AA"]),
  (["xidcontinue", "xidc"],
    ["bQJHZEABZbPAKABACAFWB4BoJELOEHABARdUBBDCBAGEBABTBcSBeKBECfFBbFCAGbIIbMBABBBBBAI0ED3KFcJE",
     "dFBHCJBSCAQb0CdEObVEACACbNS1EKFXBFIcKBeACJBSBHCBCVBGBADDCICBCDIAEBBECLKABACCBFEBCVBGBBBB",
     "BBCABEEBCCDAHDBAHPLCBIBCBVBGBBBECJBCBCCAPDCJJGBCBHCBCVBGBBBECICBCCHCEBBECJBAQBBFDCBDDBBA",
     "BBDBDCDLEEDCBDCAGAOJQMBCBWBPCIBCBDHBBCCACDCJQDBHBCBWBJBECIBCBDHBGBBDCJBCMMBCBbSBCBEFDHEC",
     "JKFBCBRDXBIBACGDAEFBABHGJCBNbZFOBJbHBBABEBXBABWCEBABGBJCDbAAXBGJLABABAEJBbDETBRBbDJAbZcJ",
     "GcNCbFBAFACbKBkMBDCGBABDCbIBDCbABDCGBABDCOBbYBDCcCCCJIOPQcVCFDtLCQBZFcKDKHVJVLTMMBCBBMcT",
     "DAEBCJbBCBKGcYHbKFcFK4BLELKbHCELbLEZGKbF1Eb4B2CKGJNAINBPbRcMDJRIMdTMbXIJDbQCKFbKCCQCBbGF",
     "qVCFCbFCFCHBABABAB4CbUBGBADCBGDDCFEMFCBGPBbRBTA2ANAQMbTMEADLRAEACJBACFGABABABPCDFEEARbIc",
     "tXhEGIMbFBAFACbXHAPXJGBGBGBGBGBGBGBGB5qFCZOBECEEcVCBCCBc4FbKBc3R5bQPqAgn5cAvuMcDbNCiMD1U",
     "bPEJBdSbFICdGCcCCBBABHVbVEATbTMcFKJGXDABbQCbDM2DcAOKG4BbWJNCJGWDcIYCCPCEKFCFCFJGBGBbKBNG",
     "d0BBCJGk9DMWEbQiiElNCdJbGGMEFLBMBEBABBBBBdLbBeKGgZSb5CbVbIJGPQPDBYCbBABADABABABABd3TJHZE",
     "ABZKcZDFCFCFCCbDLBZBSBBBOCNbCd0cFbUeIAeC2DbQPA55N3FbKF3CbDEHBEbKe3CJGbDEbDEbHIbTMKBOBGBB",
     "BKBOBGBBDbTMjWJVKHYFBbJBIcFFCABbLBBDACWKWJ4cBSBBKVKZcGbXGBcADBBFHBCB2CCEAbA2D2bDHB3ZbVKV",
     "KSNRdOcIbXbSNbSNbHIJGbFDEBWh0bJBBDBQCbXbAKAIbA5VbKU1WJcG5PJb1HANYHJGbUBJEDIbDCAJcEEDBMBA",
     "bDRBbEGDb4GBABDBOBJHb0FJGDBHCBCVBGBBBEBJCBCCCAGAFGCGDELJBACABbFBJBACABDBHNB3cKFJED4cFBAI",
     "JfGbVCIXFbCcADALJbGbYHJGT20COEJGGfZb0dFcJVHCACHBBB3BBCIMJcGHCbNCHBB1b4IAIcJDAScIgHbAPJGI",
     "BbMBIPJY3CVBNcJGBBBbLDABBBIIJGFBBBbEBBBFHJjWWJQBbIDENKcVAcP8ZdGdORgDcsMdAPbbPQVKd80FsGgv",
     "ZbZbwGrYH4BJGcOBJG3CELbWJDMJJUFSnQbMDJgGb5eAcKEbYHQcABBBLBOf/XIbgVbJJixHDBGBBBjCPA3CCAOD",
     "ImLciEdKFMDIHJDBecRJqGbNCWq4EDFIHCG4DeUCn1cUBcGBBCACBCDBLBABGBcABDCHBGB1BDBEBADGBkTCYBYB",
     "4BYB4BYB4BYB4BYBHCbRqAbWEbRIAOAWEBObcQ4GFgVGBQCGBBBEFb3bBAdQbMDNCJEAkB4RbZoWbJgWbKpFGBDB",
     "BBOBgELGbJcLEJbfGDB0BBBACABJBDBABAGAEABABABCBBBACABABABABABBBACDBGBDBDBABJBQFCBEBQdjUJba",
     "Gbjw5bAebZGg3CfuBOhjQPtNcnCq3bpCe6KFec5vxkQhP"]),
  (["xidstart", "xids"],
    ["cBZGZbPAKAEAFWB4BoJELOEHABAeBEBBDCBAGABCBABTBcSBeKIfFBbFCAGbIcH0EDbNbKbDBBdCBAPBHBKCCAQA",
     "B33cYLAYbAJBEAFVEAJADAXYHKFXBFRbJb0bVDASAHJPPEHCBCVBGBADDDAQANBBCOBKAIFEBCVBGBBBBBB5DBAT",
     "CQIBCBVBGBBBEDASAPBXALHCBCVBGBBBEDA4BBCPARABFDCBDDBBABBDBDCDLWAbUHBCBWBPDA0CCACB4AEHBCBW",
     "BJBEDA5BBBPBRIBCBbICAQAFCICYFFRDXBIBACGb0bPBANGb0BBABEBXBABJBAKACEBAVDbAAb5HBbD1EdTbKUAQ",
     "FEDDADBHCEMMARbFBAFACbKBkMBDCGBABDCbIBDCbABDCGBABDCOBbYBDCcCbFPQcVCFDtLCQBZFcKDKHRNSOROM",
     "BCPbTbDAEAcDcYHbIBAFcFK4bR3CELbLEZbWWJbUcSAc3bORHbW3NBKbL0bDbJCKbDCKFbKCCbJDBFBBDAFf5cAi",
     "VCFCbFCFCHBABABAB4CbUBGBADCBGDDCFEMFCBGdUANAQMdFAEACJBACFGABABABPCDFEEARbIctXhEGDDBMbFBA",
     "FACbXHAQWJGBGBGBGBGBGBGBGrGCZIHECEEcVGCBcZBDFbKBc3R5bQPqAgn5cAvuMcDbNCiMDPKBUbOQ4CcPbHIC",
     "dGCcCCBBABHVPBCBDBW3bTObRb4FDABBL1KWZ2HbO2AQEBJKEBbIXCBHUWDADbRBADBCECABAYCCKHCMFCFCFJGB",
     "GBbKBNGdS3k9DMWEbQiiElNCdJbGGMEFABJBMBEBABBBBBdLbBeKGgZSb5CbVbIJdXABADABABABABd3bEZGZLbX",
     "C4DFCFCFCCbDLBZBSBBBOCNbCd0cFbUiL2DbQbP5N3FbFK3CbDEHBEbKe3SbDEbDEbHIbTMKBOBGBBBKBOBGBBDb",
     "TMjWJVKHYFBbJBIcFFCABbLBBDACWKWJ4cBSBBKVKZcGbXGBcAAPDBCB2bK2D2bDHB11bVKVKSNRdOcIbXbSNbSN",
     "bDbG1JWh0bJGBQCb12KAIVbKRbOU1WMbUbZBCANbMbAY0bD3ACAIbCDAMbPODVABAbDRBYTBb5GBABDBOBJHbObG",
     "HCBCVBGBBBEDASAME4JBACABbFBAZABAbMbUSDUC4bPUBBAfYbObJDbEbPUAb1bKNAcH0bFGfZbLdUb55HCACHBB",
     "BXPABAc4HCbGQABA2AKbHHAVALbNTAScIgHbA5IBbERAbR3dQGBBBbFVAZFBBB5OAkHSPABMBbBd2AcP8ZdGdORg",
     "DcsMdAPbbPRFZd80FsGgvZ3bxCrYH4RcOR3SbPQD5UFSnQbMgTb5eAcKFAcCMcABBA2f/XIbgVbJJixHDBGBBBjC",
     "PA3CCAODImLciEdKFMDIHJf7GcUBcGBBCACBCDBLBABGBcABDCHBGB1BDBEBADGBkTCYBYB4BYB4BYB4BYB4BYBH",
     "bzU4GFiFb3eSbMKGQAkB3SbLpE1hE3CApPGBDBBBOBgEb1cDHAbfUDB0BBBACABJBDBABAGAEABABABCBBBACABA",
     "BABABABBBACDBGBDBDBABJBQFCBEBQekEbjw5bAebZGg3CfuBOhjQPtNcnCq3bpCe6KFec5"])]

def property? (name : String) : Option CodeSet :=
  (propertyTable.find? (·.1.contains name)).map (CodeSet.ofLines ·.2)

/-- The loose form of a name. A leading "is" goes, except that "isc" stays what it is, since
otherwise it would become the category "c". -/
def looseName (name : String) : String :=
  let cs := name.toList
  let loose := fun (l : List Char) =>
    (l.filter (fun c => c.toNat < 128 && c != ' ' && c != '_' && c != '-')).map Char.toLower
  match cs with
  | a :: b :: rest =>
    if a.toLower == 'i' && b.toLower == 's' then
      let r := loose rest
      String.ofList (if r == ['c'] then ['i', 's', 'c'] else r)
    else String.ofList (loose cs)
  | _ => String.ofList (loose cs)

/-- The class that a bare name selects: a property, else a category, else a script. Three short
names of properties are read as categories or scripts only. -/
def named? (name : String) : Option CodeSet :=
  let n := looseName name
  let direct := if n == "cf" || n == "sc" || n == "lc" then none else property? n
  direct <|> category? n <|> script? n

def valued? (property value : String) : Option CodeSet :=
  let v := looseName value
  match looseName property with
  | "gc" | "generalcategory" => category? v
  | "sc" | "script" => script? v
  | "scx" | "scriptextensions" => scriptUse? v
  | _ => none

end SourceEdit.Unicode
